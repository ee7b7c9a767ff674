import ClassEngine.Proofs.ClassFile.Writing

/-!
# Which classes are written

A call fails if a text is too long, a descriptor is none, a value cannot be a constant, or the
pool is full.  A class whose calls do not fail is written if its labels are marked and its code is
not empty and can be assembled.
-/

namespace ClassEngine.ClassFile

namespace Builder

variable {α β : Type} {count count' : Nat}

/-- There is no error, and room for so many constants of any width. -/
structure Room (count : Nat) (b : Builder) : Prop where
  error : b.error? = none
  size : b.slots.size + 2 * count ≤ maxSlots

/-- The action adds at most so many constants, and does not fail if there is room for them. -/
def Takes (count : Nat) (m : Build α) : Prop :=
  ∀ left b, Room (left + count) b → Room left (m b).2

theorem Room.of_le {b : Builder} (h : Room count b) (hle : count' ≤ count) : Room count' b :=
  ⟨h.error, Nat.le_trans (Nat.add_le_add_left (Nat.mul_le_mul_left 2 hle) _) h.size⟩

theorem Takes.of_le {m : Build α} (h : Takes count m) (hle : count ≤ count') : Takes count' m :=
  fun left b hb => h left b (hb.of_le (Nat.add_le_add_left hle left))

theorem takes_pure (a : α) : Takes 0 (pure a : Build α) := fun _ _ h => h

theorem Takes.bind {m : Build α} {f : α → Build β} (hm : Takes count m)
    (hf : ∀ a, Takes count' (f a)) : Takes (count + count') (m >>= f) := by
  intro left b hb
  rw [Nat.add_comm count, ← Nat.add_assoc] at hb
  exact hf (m b).1 left (m b).2 (hm (left + count') b hb)

theorem takes_modify (f : Builder → Builder)
    (hf : ∀ b, f b = { f b with slots := b.slots, index := b.index, error? := b.error? }) :
    Takes 0 (modify f) := by
  intro left b hb
  have hslots : (f b).slots = b.slots := (congrArg slots (hf b)).trans rfl
  have herror : (f b).error? = b.error? := (congrArg error? (hf b)).trans rfl
  exact ⟨herror.trans hb.error, hslots ▸ hb.size⟩

theorem takes_get : Takes 0 get := fun _ _ h => h

theorem takes_add (c : Constant) : Takes 1 (add c) := by
  intro left b hb
  cases hfound : b.index[c]? with
  | some i =>
      rw [add_found hfound]
      exact hb.of_le (Nat.le_add_right left 1)
  | none =>
      have hwidth : (if c.isWide then 2 else 1) ≤ 2 := by split <;> decide
      have hsize := hb.size
      rw [add_new hfound, if_neg (by omega)]
      refine ⟨hb.error, ?_⟩
      rw [← Array.length_toList, withConstant_toList, List.length_append, Array.length_toList,
        length_slots]
      omega

def Short (text : String) : Prop := (ModifiedUtf8.encode text).length ≤ 65535

instance (text : String) : Decidable (Short text) := inferInstanceAs (Decidable (_ ≤ _))

theorem takes_utf8 {text : String} (h : Short text) : Takes 1 (utf8 text) := by
  rw [utf8, if_neg (Nat.not_lt_of_le h)]
  exact takes_add _

theorem takes_classRef {name : String} (h : Short name) : Takes 2 (classRef name) :=
  (takes_utf8 h).bind fun _ => takes_add _

theorem takes_string {text : String} (h : Short text) : Takes 2 (string text) :=
  (takes_utf8 h).bind fun _ => takes_add _

theorem takes_nameAndType {name descriptor : String} (hname : Short name)
    (hdescriptor : Short descriptor) : Takes 3 (nameAndType name descriptor) :=
  (takes_utf8 hname).bind fun _ => (takes_utf8 hdescriptor).bind fun _ => takes_add _

theorem takes_member (kind : MemberKind) {owner name descriptor : String} (howner : Short owner)
    (hname : Short name) (hdescriptor : Short descriptor) :
    Takes 6 (member kind owner name descriptor) :=
  (takes_classRef howner).bind fun _ => (takes_nameAndType hname hdescriptor).bind fun _ =>
    takes_add _

end Builder

open Builder (Short Takes)

def Literal.Modest : Literal → Prop
  | .string text => Short text
  | .unsupported _ => False
  | .int _ | .long _ | .float _ | .double _ => True

instance : DecidablePred Literal.Modest
  | .string text => inferInstanceAs (Decidable (Short text))
  | .unsupported _ => inferInstanceAs (Decidable False)
  | .int _ | .long _ | .float _ | .double _ => inferInstanceAs (Decidable True)

theorem Builder.takes_literal {value : Literal} (h : value.Modest) : Takes 2 (literal value) := by
  cases value with
  | int | long | float | double =>
      exact ((takes_add _).bind fun _ => takes_pure _).of_le (by decide)
  | string text => exact (takes_string h).bind fun _ => takes_pure _
  | unsupported type => exact h.elim

def MethodCall.Modest : MethodCall → Prop
  | .protect _ _ _ name | .addThrows name => Short name
  | .setCode _ _ _ | .startAssembly _ _ | .emit _ | .addHandler _ | .addLine _ | .addLineAt _ _ =>
    True

instance : DecidablePred MethodCall.Modest
  | .protect _ _ _ name | .addThrows name => inferInstanceAs (Decidable (Short name))
  | .setCode _ _ _ | .startAssembly _ _ | .emit _ | .addHandler _ | .addLine _ | .addLineAt _ _ =>
    inferInstanceAs (Decidable True)

theorem MethodCall.takes_perform {call : MethodCall} (h : call.Modest) (m : MethodDraft) :
    Takes 2 (call.perform m) := by
  cases call with
  | protect start stop target name =>
      rw [perform, MethodDraft.addCatch]
      split
      · exact (Builder.takes_pure _).of_le (by decide)
      · exact (Builder.takes_classRef h).bind fun _ => Builder.takes_pure _
  | addThrows name => exact (Builder.takes_classRef h).bind fun _ => Builder.takes_pure _
  | setCode | startAssembly | emit | addHandler | addLine | addLineAt =>
      exact (Builder.takes_pure _).of_le (by decide)

/-- Nothing that the call is about is too long, or is not what it should be. -/
def Call.Modest : Call → Prop
  | .setFlags _ | .setVersion _ => True
  | .setSourceFile text | .addInterface text | .utf8 text | .classRef text | .string text =>
    Short text
  | .addField _ name descriptor =>
    Short name ∧ Short descriptor ∧ (FieldType.parse descriptor).isOk
  | .addConstantField _ name descriptor value =>
    Short name ∧ Short descriptor ∧ (FieldType.parse descriptor).isOk ∧ value.Modest
  | .addMethod _ name descriptor =>
    Short name ∧ Short descriptor ∧ (MethodDescriptor.parse descriptor).isOk
  | .changeMethod _ call => call.Modest
  | .nameAndType name descriptor => Short name ∧ Short descriptor
  | .member _ owner name descriptor => Short owner ∧ Short name ∧ Short descriptor
  | .literal value => value.Modest
  | .bytes => False

instance : DecidablePred Call.Modest
  | .setFlags _ | .setVersion _ => inferInstanceAs (Decidable True)
  | .setSourceFile text | .addInterface text | .utf8 text | .classRef text | .string text =>
    inferInstanceAs (Decidable (Short text))
  | .addField _ _ _ | .addMethod _ _ _ | .member _ _ _ _ =>
    inferInstanceAs (Decidable (_ ∧ _ ∧ _))
  | .addConstantField _ _ _ _ => inferInstanceAs (Decidable (_ ∧ _ ∧ _ ∧ _))
  | .changeMethod _ call => inferInstanceAs (Decidable call.Modest)
  | .nameAndType _ _ => inferInstanceAs (Decidable (_ ∧ _))
  | .literal value => inferInstanceAs (Decidable value.Modest)
  | .bytes => inferInstanceAs (Decidable False)

namespace Call

open Builder (takes_modify takes_pure takes_utf8)

theorem takes_declareField {name descriptor : String} (flags : UInt16) (hname : Short name)
    (hdescriptor : Short descriptor) (htyped : (FieldType.parse descriptor).isOk) :
    Takes 2 (Builder.declareField flags name descriptor) := by
  rw [Builder.declareField]
  cases hparse : FieldType.parse descriptor with
  | error e =>
      rw [hparse] at htyped
      cases htyped
  | ok t =>
      exact (takes_utf8 hname).bind fun _ => (takes_utf8 hdescriptor).bind fun _ => takes_pure _

theorem takes_declareMethod {name descriptor : String} (flags : UInt16) (hname : Short name)
    (hdescriptor : Short descriptor) (htyped : (MethodDescriptor.parse descriptor).isOk) :
    Takes 2 (Builder.declareMethod flags name descriptor) := by
  rw [Builder.declareMethod]
  cases hparse : MethodDescriptor.parse descriptor with
  | error e =>
      rw [hparse] at htyped
      cases htyped
  | ok t =>
      exact (takes_utf8 hname).bind fun _ => (takes_utf8 hdescriptor).bind fun _ => takes_pure _

theorem takes_changeMethod {count : Nat} {change : MethodDraft → Build MethodDraft} (index : Nat)
    (h : ∀ m, Takes count (change m)) : Takes count (Builder.changeMethod index change) := by
  have hrun : Takes (0 + count) (Builder.changeMethod index change) := by
    refine Builder.takes_get.bind fun b => ?_
    cases b.methods[index]? with
    | none => exact (takes_pure ()).of_le (Nat.zero_le _)
    | some m => exact (h m).bind fun m' => takes_modify _ fun _ => rfl
  rwa [Nat.zero_add] at hrun

theorem takes_perform {call : Call} (h : call.Modest) : Takes 6 call.perform := by
  cases call with
  | setFlags | setVersion => exact (takes_modify _ fun _ => rfl).of_le (by decide)
  | setSourceFile name =>
      exact ((takes_utf8 h).bind fun _ => takes_modify _ fun _ => rfl).of_le (by decide)
  | addInterface name =>
      exact ((Builder.takes_classRef h).bind fun _ => takes_modify _ fun _ => rfl).of_le (by decide)
  | addField flags name descriptor =>
      obtain ⟨hname, hdescriptor, htyped⟩ := h
      exact ((takes_declareField flags hname hdescriptor htyped).bind fun _ =>
        takes_modify _ fun _ => rfl).of_le (by decide)
  | addConstantField flags name descriptor value =>
      obtain ⟨hname, hdescriptor, htyped, hvalue⟩ := h
      refine ((takes_declareField flags hname hdescriptor htyped).bind fun f =>
        (Builder.takes_literal hvalue).bind fun i? => ?_).of_le (by decide : 2 + (2 + 0) ≤ 6)
      cases i? with
      | some i => exact takes_modify _ fun _ => rfl
      | none =>
          cases value with
          | unsupported type => exact hvalue.elim
          | int | long | float | double | string => exact takes_modify _ fun _ => rfl
  | addMethod flags name descriptor =>
      obtain ⟨hname, hdescriptor, htyped⟩ := h
      exact ((takes_declareMethod flags hname hdescriptor htyped).bind fun _ =>
        takes_modify _ fun _ => rfl).of_le (by decide)
  | changeMethod index call =>
      exact (takes_changeMethod index fun m => MethodCall.takes_perform h m).of_le (by decide)
  | utf8 text => exact ((takes_utf8 h).bind fun _ => takes_pure _).of_le (by decide)
  | classRef name => exact ((Builder.takes_classRef h).bind fun _ => takes_pure _).of_le (by decide)
  | string text => exact ((Builder.takes_string h).bind fun _ => takes_pure _).of_le (by decide)
  | nameAndType name descriptor =>
      exact ((Builder.takes_nameAndType h.1 h.2).bind fun _ => takes_pure _).of_le (by decide)
  | member kind owner name descriptor =>
      exact ((Builder.takes_member kind h.1 h.2.1 h.2.2).bind
        fun _ => takes_pure _).of_le (by decide)
  | literal value => exact ((Builder.takes_literal h).bind fun _ => takes_pure _).of_le (by decide)
  | bytes => exact h.elim

theorem takes_forM {calls : List Call} (h : ∀ call ∈ calls, call.Modest) :
    Takes (6 * calls.length) (calls.forM perform) := by
  induction calls with
  | nil => exact takes_pure ()
  | cons call rest ih =>
      have hrest := ih fun call' h' => h call' (List.mem_cons_of_mem call h')
      rw [List.length_cons, Nat.mul_succ, Nat.add_comm]
      exact (takes_perform (h call List.mem_cons_self)).bind fun _ => hrest

end Call

theorem Builder.Room.start {name super : String} {left : Nat} (h : Room (left + 4) {})
    (hname : Short name) (hsuper : Short super) : Room left (start name super) := by
  have hthis : Takes 2 (declareThis name) :=
    (takes_classRef hname).bind fun _ => takes_modify _ fun _ => rfl
  have hrest : Takes 2 (declareSuper super) := by
    rw [declareSuper]
    split
    · exact (takes_classRef hsuper).bind fun _ => takes_modify _ fun _ => rfl
    · exact (takes_pure ()).of_le (Nat.zero_le 2)
  rw [start_eq]
  exact (hthis.bind fun _ => hrest) left {} h

/-! ## Labels and code -/

namespace DeclaredHandler

def uses : DeclaredHandler → List Code.LabelId
  | .labels start stop target _ => [start, stop, target]
  | .row _ => []

end DeclaredHandler

namespace LineDraft

def uses : LineDraft → List Code.LabelId
  | .label start _ => [start]
  | .entry _ => []

end LineDraft

namespace DeclaredMethod

/-- The method has no code; or its code is not empty, it can be assembled, and the labels are
marked. -/
def Writable (d : DeclaredMethod) : Prop :=
  d.code = .none ∨ (d.finished?.any fun (_, _, code) => !code.isEmpty) = true ∧
    ∀ l ∈ d.handlers.flatMap (·.uses) ++ d.lines.flatMap (·.uses),
      (d.assembler.position? l).isSome

instance (d : DeclaredMethod) : Decidable d.Writable :=
  inferInstanceAs (Decidable (_ ∨ _ ∧ _))

variable {p : Pool} {m : MethodDraft} {d : DeclaredMethod}

theorem Models.finishCode_eq (h : d.Models p m) {maxStack maxLocals : UInt16} {code : List UInt8}
    (hfinished : d.finished? = some (maxStack, maxLocals, code)) (hne : code.isEmpty = false) :
    m.finishCode = .ok (some (maxStack, maxLocals, code)) := by
  rw [finished?, ← h.code, ← h.assembler] at hfinished
  rw [MethodDraft.finishCode]
  cases hcode : m.code with
  | none =>
      rw [hcode] at hfinished
      nomatch hfinished
  | bytes maxStack' maxLocals' code' =>
      rw [hcode] at hfinished
      cases hfinished
      dsimp only
      rw [hne]
      rfl
  | assembly maxStack' maxLocals' =>
      rw [hcode] at hfinished
      dsimp only at hfinished
      obtain ⟨code', hcode', hsame⟩ := Option.map_eq_some_iff.mp hfinished
      cases hassemble : m.assembler.assemble with
      | error e =>
          rw [hassemble] at hcode'
          nomatch hcode'
      | ok code'' =>
          rw [hassemble] at hcode'
          cases hcode'
          cases hsame
          dsimp only
          rw [Array.isEmpty_toList] at hne
          rw [hne]
          rfl

theorem exists_mapM {α β ε : Type} {f : α → Except ε β} {xs : List α}
    (h : ∀ x ∈ xs, ∃ y, f x = .ok y) : ∃ ys, xs.mapM f = .ok ys := by
  induction xs with
  | nil => exact ⟨[], rfl⟩
  | cons x rest ih =>
      obtain ⟨y, hy⟩ := h x List.mem_cons_self
      obtain ⟨ys, hys⟩ := ih fun x' h' => h x' (List.mem_cons_of_mem x h')
      exact ⟨y :: ys, by rw [List.mapM_cons, hy, hys]; rfl⟩

theorem Models.position_ok (h : d.Models p m) {l : Code.LabelId}
    (hl : (d.assembler.position? l).isSome) : ∃ i, m.position l = .ok i := by
  obtain ⟨position, hposition⟩ := Option.isSome_iff_exists.mp hl
  exact ⟨UInt16.ofNat position, by rw [MethodDraft.position, h.assembler, hposition]⟩

theorem Models.handlerRow_ok (h : d.Models p m) {draft : HandlerDraft} {handler : DeclaredHandler}
    (hhandler : handler.Models p draft)
    (hmarked : ∀ l ∈ handler.uses, (d.assembler.position? l).isSome) :
    ∃ row, m.handlerRow draft = .ok row := by
  have hlabels {start stop target : Code.LabelId} (catchType : UInt16)
      (hmarked : ∀ l ∈ [start, stop, target], (d.assembler.position? l).isSome) :
      ∃ row, m.handlerRow (.labels start stop target catchType) = .ok row := by
    obtain ⟨i, hi⟩ := h.position_ok (hmarked start (by simp))
    obtain ⟨j, hj⟩ := h.position_ok (hmarked stop (by simp))
    obtain ⟨k, hk⟩ := h.position_ok (hmarked target (by simp))
    exact ⟨⟨i, j, k, catchType⟩, by rw [MethodDraft.handlerRow, hi, hj, hk]; rfl⟩
  cases hhandler with
  | all start stop target => exact hlabels 0 hmarked
  | named => exact hlabels _ hmarked
  | row row => exact ⟨row, rfl⟩

theorem Models.lineEntry_ok (h : d.Models p m) {line : LineDraft}
    (hmarked : ∀ l ∈ line.uses, (d.assembler.position? l).isSome) :
    ∃ e, m.lineEntry line = .ok e := by
  cases line with
  | entry e => exact ⟨e, rfl⟩
  | label start line =>
      obtain ⟨i, hi⟩ := h.position_ok (hmarked start List.mem_cons_self)
      exact ⟨⟨i, line⟩, by rw [MethodDraft.lineEntry, hi]; rfl⟩

theorem Models.encodeBody_ok (h : d.Models p m) (hw : d.Writable) (b : Builder) :
    ∃ bytes?, (m.encodeBody b).1 = .ok bytes? := by
  rcases hw with hnone | ⟨hfinished, hmarked⟩
  · have hfinish : m.finishCode = .ok none := by
      rw [MethodDraft.finishCode, h.code, hnone]
      rfl
    rw [MethodDraft.encodeBody_none hfinish]
    exact ⟨none, rfl⟩
  · obtain ⟨⟨maxStack, maxLocals, code⟩, hcode, hne⟩ := Option.any_eq_true _ _ |>.mp hfinished
    have hfinish := h.finishCode_eq hcode (by simpa using hne)
    have hrow : ∀ draft ∈ m.handlers, ∃ row, m.handlerRow draft = .ok row := by
      intro draft hdraft
      obtain ⟨handler, hmem, hmodels⟩ := forall₂_exists h.handlers hdraft
      exact h.handlerRow_ok hmodels fun l hl =>
        hmarked l (List.mem_append_left _ (List.mem_flatMap.mpr ⟨handler, hmem, hl⟩))
    have hline : ∀ line ∈ m.lines, ∃ e, m.lineEntry line = .ok e := fun line hline =>
      h.lineEntry_ok fun l hl => hmarked l (List.mem_append_right _
        (List.mem_flatMap.mpr ⟨line, h.lines ▸ hline, hl⟩))
    obtain ⟨rows, hrows⟩ := exists_mapM hrow
    obtain ⟨entries, hentries⟩ := exists_mapM hline
    rw [MethodDraft.encodeBody_some hfinish hrows]
    split
    · exact ⟨_, rfl⟩
    · rw [hentries]
      exact ⟨_, rfl⟩

end DeclaredMethod

/-! ## Classes -/

namespace Builder

/-- Only the name of the line table may be added. -/
theorem takes_encodeBody (m : MethodDraft) : Takes 1 m.encodeBody := by
  cases hcode : m.finishCode with
  | error e =>
      rw [MethodDraft.encodeBody, hcode]
      exact (takes_pure _).of_le (Nat.zero_le 1)
  | ok finished? =>
      cases finished? with
      | none =>
          rw [MethodDraft.encodeBody_none hcode]
          exact (takes_pure _).of_le (Nat.zero_le 1)
      | some finished =>
          cases hrows : m.handlers.mapM m.handlerRow with
          | error e =>
              rw [MethodDraft.encodeBody, hcode, hrows]
              exact (takes_pure _).of_le (Nat.zero_le 1)
          | ok rows =>
              rw [MethodDraft.encodeBody_some hcode hrows]
              split
              · exact (takes_pure _).of_le (Nat.zero_le 1)
              · exact (takes_utf8 (by decide)).bind fun _ => takes_pure _

theorem takes_encodeBodies (ms : List MethodDraft) : Takes ms.length (encodeBodies ms) := by
  induction ms with
  | nil => exact takes_pure _
  | cons m rest ih =>
      rw [List.length_cons, Nat.add_comm]
      refine (takes_encodeBody m).bind fun r => ?_
      cases r with
      | error e => exact (takes_pure _).of_le (Nat.zero_le _)
      | ok body => exact ih.bind fun _ => takes_pure _

theorem encodeBodies_ok {ms : List MethodDraft}
    (h : ∀ m ∈ ms, ∀ b, ∃ bytes?, (m.encodeBody b).1 = .ok bytes?) (b : Builder) :
    ∃ bodies, (encodeBodies ms b).1 = .ok bodies := by
  induction ms generalizing b with
  | nil => exact ⟨[], rfl⟩
  | cons m rest ih =>
      obtain ⟨bytes?, hfirst⟩ := h m List.mem_cons_self b
      obtain ⟨bodies, hrest⟩ := ih (fun m' h' => h m' (List.mem_cons_of_mem m h'))
        (m.encodeBody b).2
      have hrun : (encodeBodies (m :: rest) b).1 =
          (encodeBodies rest (m.encodeBody b).2).1.map (bytes? :: ·) := by
        rw [encodeBodies, bind_apply, hfirst]
        rfl
      exact ⟨bytes? :: bodies, by rw [hrun, hrest]; rfl⟩

theorem takes_nameIf (used : Bool) {name : String} (h : Short name) :
    Takes 1 (nameIf used name) := by
  cases used with
  | false => exact (takes_pure _).of_le (Nat.zero_le 1)
  | true => exact takes_utf8 h

theorem takes_attributeNames : Takes 4 attributeNames :=
  (takes_get.bind fun b => (takes_utf8 (by decide)).bind fun _ =>
    (takes_nameIf (b.fields.any (·.constant ≠ 0)) (by decide)).bind fun _ =>
      (takes_nameIf (b.methods.any fun m => !m.throws.isEmpty) (by decide)).bind fun _ =>
        (takes_nameIf (b.sourceFile ≠ 0) (by decide)).bind fun _ => takes_pure _).of_le (by decide)

/-- A class is written if its calls are modest and not too many, and its methods are writable. -/
theorem bytes_ok {name super : String} {calls : List Call} (hname : Short name)
    (hsuper : Short super) (hcalls : ∀ call ∈ calls, call.Modest)
    (hmethods : ∀ m ∈ (Declared.ofCalls name super calls).methods, m.Writable)
    (hroom : 6 * calls.length + (Declared.ofCalls name super calls).methods.length ≤ 32000) :
    ∃ bs b, bytes.run (build name super calls) = (.ok bs, b) := by
  have hbuild := build_models name super calls
  have hempty : Room (4 + (Declared.ofCalls name super calls).methods.length +
      6 * calls.length + 4) {} := by
    refine ⟨rfl, ?_⟩
    show 1 + _ ≤ 65535
    omega
  have hbuilt : Room (4 + (Declared.ofCalls name super calls).methods.length)
      (build name super calls) := Call.takes_forM hcalls _ _ (hempty.start hname hsuper)
  have hmodels := hbuild.post hbuilt.error _ (.refl _)
  rw [← hmodels.methods.length_eq] at hbuilt
  have hnamed := takes_attributeNames 0 _ (takes_encodeBodies _ 4 _ hbuilt)
  have hbody : ∀ m ∈ (build name super calls).methods, ∀ b,
      ∃ bytes?, (m.encodeBody b).1 = .ok bytes? := by
    intro m hm b
    obtain ⟨d, hd, hmodel⟩ := forall₂_exists hmodels.methods hm
    exact hmodel.encodeBody_ok (hmethods d hd) b
  obtain ⟨bodies, hbodies⟩ := encodeBodies_ok hbody (build name super calls)
  have hrun := bytes_finished hbodies
  dsimp only at hrun
  rw [hnamed.error] at hrun
  exact ⟨_, _, hrun⟩

end Builder

end ClassEngine.ClassFile
