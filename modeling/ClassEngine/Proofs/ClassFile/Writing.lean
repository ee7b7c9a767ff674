import ClassEngine.Proofs.ClassFile.Building

/-!
# Writing keeps to the declarations
-/

namespace ClassEngine.ClassFile

open BigEndian
open Builder (Performs Adds)

theorem ok_of_bind {α β ε : Type} {x : Except ε α} {f : α → Except ε β} {b : β}
    (h : x >>= f = .ok b) : ∃ a, x = .ok a ∧ f a = .ok b := by
  cases x with
  | error e => nomatch h
  | ok a => exact ⟨a, rfl, h⟩

theorem forall₂_of_mapM {α β ε : Type} {f : α → Except ε β} {xs : List α} {ys : List β}
    (h : xs.mapM f = .ok ys) : List.Forall₂ (fun x y => f x = .ok y) xs ys := by
  induction xs generalizing ys with
  | nil =>
      cases h
      exact .nil
  | cons x xs ih =>
      rw [List.mapM_cons] at h
      obtain ⟨y, hy, h⟩ := ok_of_bind h
      obtain ⟨rest, hrest, h⟩ := ok_of_bind h
      cases h
      exact .cons hy (ih hrest)

namespace WrittenMethod

variable {p : Pool} {w : WrittenMethod}

/-- The body is the code of the draft with its rows and lines, and the name of the line table is
there if it is used. -/
structure Finished (p : Pool) (w : WrittenMethod) : Prop where
  code : w.draft.finishCode =
    .ok (w.body?.map fun b => (b.maxStack, b.maxLocals, b.code.toList))
  handlers : ∀ b, w.body? = some b → w.draft.handlers.mapM w.draft.handlerRow = .ok b.handlers
  lines : ∀ b, w.body? = some b → w.draft.lines.mapM w.draft.lineEntry = .ok b.lines
  named : ∀ b, w.body? = some b → b.lines ≠ [] → p.utf8 w.lineTable = .ok "LineNumberTable"

end WrittenMethod

namespace MethodDraft

variable {m : MethodDraft}

def encodeHead (maxStack maxLocals : UInt16) (code : List UInt8) (rows : List Handler) :
    List UInt8 :=
  bytes16 maxStack ++ bytes16 maxLocals ++ count32 code.length ++ code ++ count16 rows ++
    rows.flatMap encodeHandler

theorem encode_withoutLines (maxStack maxLocals : UInt16) (code : List UInt8) (rows : List Handler)
    (lineTable : UInt16) :
    Body.encode lineTable ⟨maxStack, maxLocals, code.toArray, rows, []⟩ =
      encodeHead maxStack maxLocals code rows ++ bytes16 0 := by
  simp only [Body.encode, encodeHead, List.append_assoc]
  rfl

theorem encode_withLines (maxStack maxLocals : UInt16) (code : List UInt8) (rows : List Handler)
    {entries : List LineEntry} (hne : entries ≠ []) (lineTable : UInt16) :
    Body.encode lineTable ⟨maxStack, maxLocals, code.toArray, rows, entries⟩ =
      encodeHead maxStack maxLocals code rows ++ bytes16 1 ++ bytes16 lineTable ++
          count32 (2 + 4 * entries.length) ++ count16 entries ++ entries.flatMap encodeLine := by
  have hlines : ¬ entries.isEmpty := by simpa using hne
  rw [Body.encode, if_neg hlines, Builder.encodeAttribute, length_encodeLines]
  simp only [encodeHead, List.append_assoc]
  rfl

theorem encodeBody_none (hcode : m.finishCode = .ok none) : m.encodeBody = (return .ok none) := by
  rw [encodeBody, hcode]
  rfl

theorem encodeBody_some {maxStack maxLocals : UInt16} {code : List UInt8} {rows : List Handler}
    (hcode : m.finishCode = .ok (some (maxStack, maxLocals, code)))
    (hrows : m.handlers.mapM m.handlerRow = .ok rows) :
    m.encodeBody =
      if m.lines.isEmpty then
        return .ok (some (encodeHead maxStack maxLocals code rows ++ bytes16 0))
      else do
        let name ← Builder.utf8 "LineNumberTable"
        return do
          let entries ← m.lines.mapM m.lineEntry
          return some (encodeHead maxStack maxLocals code rows ++ bytes16 1 ++
            bytes16 name ++ count32 (2 + 4 * entries.length) ++ count16 entries ++
            entries.flatMap encodeLine) := by
  rw [encodeBody, hcode, hrows]
  rfl

theorem adds_encodeBody (m : MethodDraft) : Adds m.encodeBody fun p r => ∀ bytes?,
    r = .ok bytes? → ∃ w : WrittenMethod, w.draft = m ∧ w.bytes? = bytes? ∧ w.Finished p := by
  cases hcode : m.finishCode with
  | error e =>
      have hrun : m.encodeBody = (return .error e) := by rw [encodeBody, hcode]; rfl
      rw [hrun]
      exact Builder.adds_pure fun _ => nofun
  | ok finished? =>
      cases finished? with
      | none =>
          rw [encodeBody_none hcode]
          refine Builder.adds_pure fun p bytes? hbytes => ⟨⟨m, none, 0⟩, rfl, ?_, ?_⟩
          · exact Except.ok.inj hbytes
          · exact ⟨hcode, nofun, nofun, nofun⟩
      | some finished =>
          obtain ⟨maxStack, maxLocals, code⟩ := finished
          cases hrows : m.handlers.mapM m.handlerRow with
          | error e =>
              have hrun : m.encodeBody = (return .error e) := by rw [encodeBody, hcode, hrows]; rfl
              rw [hrun]
              exact Builder.adds_pure fun _ => nofun
          | ok rows =>
              rw [encodeBody_some hcode hrows]
              split
              · rename_i hlines
                refine Builder.adds_pure fun p bytes? hbytes =>
                  ⟨⟨m, some ⟨maxStack, maxLocals, code.toArray, rows, []⟩, 0⟩, rfl, ?_, ?_⟩
                · exact (congrArg some (encode_withoutLines _ _ _ _ _)).trans (Except.ok.inj hbytes)
                · refine ⟨hcode, ?_, ?_, ?_⟩
                  · rintro b ⟨⟩
                    exact hrows
                  · rintro b ⟨⟩
                    show m.lines.mapM m.lineEntry = .ok []
                    rw [List.isEmpty_iff.mp hlines]
                    rfl
                  · rintro b ⟨⟩ hne
                    exact absurd rfl hne
              · rename_i hlines
                refine (Builder.adds_utf8 "LineNumberTable").bind fun name =>
                  Builder.adds_pure fun p hname bytes? hbytes => ?_
                obtain ⟨entries, hentries, hbytes⟩ := ok_of_bind hbytes
                have hne : entries ≠ [] := by
                  rintro rfl
                  have hnone := List.forall₂_nil_right_iff.mp (forall₂_of_mapM hentries)
                  exact hlines (List.isEmpty_iff.mpr hnone)
                refine ⟨⟨m, some ⟨maxStack, maxLocals, code.toArray, rows, entries⟩, name⟩,
                  rfl, ?_, ?_⟩
                · exact (congrArg some (encode_withLines _ _ _ _ hne _)).trans
                    (Except.ok.inj hbytes)
                · refine ⟨hcode, ?_, ?_, ?_⟩
                  · rintro b ⟨⟩
                    exact hrows
                  · rintro b ⟨⟩
                    exact hentries
                  · rintro b ⟨⟩ -
                    exact hname

end MethodDraft

namespace Builder

theorem adds_encodeBodies (ms : List MethodDraft) : Adds (encodeBodies ms) fun p r => ∀ bodies,
    r = .ok bodies → ∃ ws : List WrittenMethod, ws.map (·.draft) = ms ∧
      ws.map (·.bytes?) = bodies ∧ ∀ w ∈ ws, w.Finished p := by
  induction ms with
  | nil => exact adds_pure fun p bodies hbodies => ⟨[], rfl, Except.ok.inj hbodies, nofun⟩
  | cons m rest ih =>
      refine m.adds_encodeBody.bind fun r => ?_
      cases r with
      | error e => exact adds_pure fun _ _ => nofun
      | ok bytes? =>
          refine ih.bind fun r => adds_pure fun p hrest hfirst bodies hbodies => ?_
          cases r with
          | error e => nomatch hbodies
          | ok others =>
              obtain ⟨w, rfl, rfl, hw⟩ := hfirst bytes? rfl
              obtain ⟨ws, rfl, rfl, hws⟩ := hrest others rfl
              refine ⟨w :: ws, rfl, Except.ok.inj hbodies, fun w' hw' => ?_⟩
              rcases List.mem_cons.mp hw' with rfl | hmem
              · exact hw
              · exact hws w' hmem

structure AttributeNames.Present (p : Pool) (b : Builder) (names : AttributeNames) : Prop where
  code : p.utf8 names.code = .ok "Code"
  constantValue : ∀ f ∈ b.fields, f.constant ≠ 0 →
    p.utf8 names.constantValue = .ok "ConstantValue"
  exceptions : ∀ m ∈ b.methods, m.throws ≠ [] → p.utf8 names.exceptions = .ok "Exceptions"
  sourceFile : b.sourceFile ≠ 0 → p.utf8 names.sourceFile = .ok "SourceFile"

theorem AttributeNames.Present.keeps {p : Pool} {b b' : Builder} {names : AttributeNames}
    (h : names.Present p b) (hkeeps : b.Keeps b') : names.Present p b' := by
  rw [hkeeps]
  exact ⟨h.code, h.constantValue, h.exceptions, h.sourceFile⟩

def nameIf (used : Bool) (name : String) : Build UInt16 := if used then utf8 name else pure 0

theorem adds_nameIf (used : Bool) (name : String) :
    Adds (nameIf used name) fun p i => used = true → p.utf8 i = .ok name := by
  cases used with
  | false => exact adds_pure fun _ => nofun
  | true => exact (adds_utf8 name).mono fun _ _ h _ => h

def namesUsed (b : Builder) : Build AttributeNames := do
  let code ← utf8 "Code"
  let constantValue ← nameIf (b.fields.any (·.constant ≠ 0)) "ConstantValue"
  let exceptions ← nameIf (b.methods.any fun m => !m.throws.isEmpty) "Exceptions"
  let sourceFile ← nameIf (b.sourceFile ≠ 0) "SourceFile"
  return ⟨code, constantValue, exceptions, sourceFile⟩

theorem attributeNames_eq : attributeNames = (do namesUsed (← get)) := rfl

theorem adds_namesUsed (b : Builder) : Adds (namesUsed b) fun p names => names.Present p b :=
  (adds_utf8 _).bind fun _ => (adds_nameIf _ _).bind fun _ => (adds_nameIf _ _).bind fun _ =>
    (adds_nameIf _ _).bind fun _ => adds_pure fun p hsource hexceptions hconstant hcode => {
      code := hcode
      constantValue := fun f hf hne =>
        hconstant (List.any_eq_true.mpr ⟨f, hf, decide_eq_true hne⟩)
      exceptions := fun m hm hne =>
        hexceptions (List.any_eq_true.mpr ⟨m, hm, by simpa using hne⟩)
      sourceFile := fun hne => hsource (decide_eq_true hne) }

theorem performs_attributeNames :
    Performs attributeNames fun p b names b' => b.Keeps b' ∧ names.Present p b := by
  rw [attributeNames_eq]
  refine performs_get.bind fun b₀ => Performs.mono (adds_namesUsed b₀)
    fun p b names b' ⟨hkeeps, hpresent⟩ b₁ ⟨hget, hsame⟩ => ?_
  subst hsame hget
  exact ⟨hkeeps, hpresent⟩

theorem performs_bytes :
    Performs bytes fun p b r b' => b.Keeps b' ∧ ∀ bs, r = .ok bs → ∃ names ws,
      bs = WrittenClass.bytes ⟨b', names, ws⟩ ∧ ws.map (·.draft) = b.methods ∧
        (∀ w ∈ ws, w.Finished p) ∧ names.Present p b := by
  refine performs_get.bind fun b₀ => Performs.bind (adds_encodeBodies b₀.methods) fun r => ?_
  cases r with
  | error e =>
      refine performs_pure fun p b b₁ ⟨hkeeps, _⟩ b₂ ⟨hget, hsame⟩ => ?_
      subst hsame
      exact ⟨hkeeps, nofun⟩
  | ok bodies =>
      refine performs_attributeNames.bind fun names => performs_get.bind fun b₁ => ?_
      have hkept {p : Pool} {b b₂ b₃ b₄ : Builder} (h₄ : b₀ = b₄ ∧ b₃ = b₄) (h₃ : b₃.Keeps b₂)
          (h₂ : b₂.Keeps b ∧ names.Present p b₂) :
          b₄.Keeps b ∧ names.Present p b₄ := by
        obtain ⟨-, rfl⟩ := h₄
        obtain ⟨hkeeps, hpresent⟩ := h₂
        refine ⟨h₃.trans hkeeps, ?_⟩
        rw [h₃] at hpresent
        exact ⟨hpresent.code, hpresent.constantValue, hpresent.exceptions, hpresent.sourceFile⟩
      cases b₁.error? with
      | some e =>
          refine performs_pure fun p b b₂ ⟨_, hsame⟩ b₃ hnames b₄ ⟨hkeeps, _⟩ b₅ hget => ?_
          subst hsame
          exact ⟨(hkept hget hkeeps hnames).1, nofun⟩
      | none =>
          refine performs_pure fun p b b₂ ⟨hget₁, hsame⟩ b₃ hnames b₄ ⟨hkeeps, hbodies⟩ b₅ hget =>
            ?_
          subst hsame hget₁
          obtain ⟨hkeeps', hpresent⟩ := hkept hget hkeeps hnames
          refine ⟨hkeeps', fun bs hbs => ?_⟩
          obtain ⟨ws, hdrafts, rfl, hws⟩ := hbodies bodies rfl
          exact ⟨names, ws, (Except.ok.inj hbs).symm, hget.1 ▸ hdrafts, hws, hpresent⟩

theorem bytes_refused {b : Builder} {e : BuildError} (h : (encodeBodies b.methods b).1 = .error e) :
    bytes b = (.error e, (encodeBodies b.methods b).2) := by
  rw [bytes, bind_apply, get_apply, bind_apply, h]
  rfl

theorem bytes_finished {b : Builder} {bodies : List (Option (List UInt8))}
    (h : (encodeBodies b.methods b).1 = .ok bodies) :
    bytes b =
      let named := attributeNames (encodeBodies b.methods b).2
      (match named.2.error? with
      | some e => .error e
      | none => .ok (named.2.encode named.1 bodies), named.2) := by
  rw [bytes, bind_apply, get_apply, bind_apply, h]
  dsimp only
  rw [bind_apply, bind_apply, get_apply]
  cases (attributeNames (encodeBodies b.methods b).2).2.error? <;> rfl

theorem error?_of_bytes {b : Builder} {bs : List UInt8} (h : (bytes b).1 = .ok bs) :
    (bytes b).2.error? = none := by
  cases hbodies : (encodeBodies b.methods b).1 with
  | error e =>
      rw [bytes_refused hbodies] at h
      nomatch h
  | ok bodies =>
      rw [bytes_finished hbodies] at h ⊢
      dsimp only at h ⊢
      cases herror : (attributeNames (encodeBodies b.methods b).2).2.error? with
      | some e =>
          rw [herror] at h
          nomatch h
      | none => rfl

end Builder

/-! ## All calls -/

theorem Call.follows (call : Call) : call.Follows := by
  cases call with
  | setFlags flags => exact follows_setFlags flags
  | setVersion version => exact follows_setVersion version
  | setSourceFile name => exact follows_setSourceFile name
  | addInterface name => exact follows_addInterface name
  | addField flags name descriptor => exact follows_addField flags name descriptor
  | addConstantField flags name descriptor value =>
      exact follows_addConstantField flags name descriptor value
  | addMethod flags name descriptor => exact follows_addMethod flags name descriptor
  | changeMethod index call => exact follows_changeMethod index call
  | utf8 text => exact performs_of_adds (Builder.adds_utf8 text)
  | classRef name => exact performs_of_adds (Builder.adds_classRef name)
  | string text => exact performs_of_adds (Builder.adds_string text)
  | nameAndType name descriptor => exact performs_of_adds (Builder.adds_nameAndType name descriptor)
  | member kind owner name descriptor =>
      exact performs_of_adds (Builder.adds_member kind owner name descriptor)
  | literal value => exact performs_of_adds (Builder.adds_literal value)
  | bytes =>
      exact Performs.bind Builder.performs_bytes fun _ =>
        Builder.performs_pure fun _ _ _ ⟨hkeeps, _⟩ _ h => h.keeps hkeeps

theorem performs_calls (calls : List Call) :
    Performs (calls.forM Call.perform) fun p b _ b' => ∀ d : Declared, d.Models p b →
      (calls.foldl Call.declare d).Models p b' := by
  induction calls with
  | nil => exact Builder.performs_pure fun _ _ _ h => h
  | cons call rest ih =>
      exact call.follows.bind fun _ => ih.mono fun _ _ _ _ hrest _ hcall d h =>
        hrest _ (hcall d h)

theorem Builder.sound_empty : Sound {} := by
  refine ⟨⟨[], rfl, nofun⟩, by decide, fun c i h => by simp at h, fun i c h => ?_⟩
  have hslot : (#[none] : Array (Option Constant))[i.toNat]? = some (some c) :=
    (Pool.get?_eq_some.mp h).2
  have hzero : i.toNat = 0 := Nat.lt_one_iff.mp (Array.getElem?_eq_some_iff.mp hslot).1
  rw [hzero] at hslot
  nomatch hslot

namespace Builder

def declareThis (name : String) : Build Unit := do
  let this ← classRef name
  modify ({ · with this })

def declareSuper (super : String) : Build Unit := do
  if super ≠ "" then
    let super ← classRef super
    modify ({ · with super })

theorem start_eq (name super : String) :
    start name super = ((do declareThis name; declareSuper super) {}).2 := rfl

theorem performs_declareThis (name : String) : Performs (declareThis name) fun p b _ b' => b = {} →
    Declared.Models p b' { name, superName := "" } := by
  refine Performs.bind (adds_classRef name) fun i => (performs_modify _ fun _ => rfl).mono
    fun p b _ b' hb' b₀ ⟨hkeeps, hi⟩ hempty => ?_
  subst hb' hempty
  rw [hkeeps]
  exact ⟨hi, rfl, rfl, rfl, .nil, .nil, .nil, rfl⟩

theorem performs_declareSuper (name super : String) : Performs (declareSuper super) fun p b _ b' =>
    Declared.Models p b { name, superName := "" } →
      Declared.Models p b' { name, superName := super } := by
  rw [declareSuper]
  by_cases hne : super ≠ ""
  · rw [if_pos hne]
    refine Performs.bind (adds_classRef super) fun i => (performs_modify _ fun _ => rfl).mono
      fun p b _ b' hb' b₀ ⟨hkeeps, hi⟩ h => ?_
    subst hb'
    exact { h.keeps hkeeps with superName := by rw [if_neg hne]; exact hi }
  · rw [if_neg hne]
    exact performs_pure fun p b h => not_not.mp hne ▸ h

theorem performs_start (name super : String) :
    Performs (do declareThis name; declareSuper super) fun p b _ b' => b = {} →
      Declared.Models p b' { name, superName := super } :=
  (performs_declareThis name).bind fun _ => (performs_declareSuper name super).mono
    fun _ _ _ _ h _ hthis hempty => h (hthis hempty)

theorem start_models (name super : String) :
    Leaves {} (start name super) fun p =>
      Declared.Models p (start name super) { name, superName := super } := by
  have hleaves := performs_start name super {} sound_empty
  rw [← start_eq] at hleaves
  exact { hleaves with post := fun hok p hp => hleaves.post hok p hp rfl }

theorem build_models (name super : String) (calls : List Call) :
    Leaves {} (build name super calls) fun p =>
      (Declared.ofCalls name super calls).Models p (build name super calls) := by
  have hstart := start_models name super
  have hcalls := performs_calls calls (start name super) hstart.sound
  rw [build, Declared.ofCalls]
  generalize start name super = b at hstart hcalls ⊢
  exact {
    sound := hcalls.sound
    grows := hstart.grows.trans hcalls.grows
    error := fun hok => hstart.error (hcalls.error hok)
    post := fun hok p hp => hcalls.post hok p hp _
      (hstart.post (hcalls.error hok) p (hcalls.grows.trans hp)) }

end Builder

end ClassEngine.ClassFile
