import ClassEngine.Proofs.ClassFile.Writable

/-!
# Class files are read back as they were declared
-/

namespace ClassEngine.ClassFile

open Builder (Performs Adds)

/-! ## Code -/

inductive MethodDraft.Finishes (m : MethodDraft) :
    Option (UInt16 × UInt16 × List UInt8) → Prop where
  | none (hcode : m.code = .none) : Finishes m none
  | bytes {maxStack maxLocals : UInt16} {code : List UInt8}
    (hcode : m.code = .bytes maxStack maxLocals code) (hne : code ≠ []) :
    Finishes m (some (maxStack, maxLocals, code))
  | assembly {maxStack maxLocals : UInt16} {code : Array UInt8}
    (hcode : m.code = .assembly maxStack maxLocals) (hassemble : m.assembler.assemble = .ok code)
    (hne : code.toList ≠ []) : Finishes m (some (maxStack, maxLocals, code.toList))

theorem MethodDraft.finishes {m : MethodDraft} {finished? : Option (UInt16 × UInt16 × List UInt8)}
    (h : m.finishCode = .ok finished?) : m.Finishes finished? := by
  rw [finishCode] at h
  cases hcode : m.code with
  | none =>
      rw [hcode] at h
      cases h
      exact .none hcode
  | bytes maxStack maxLocals code =>
      rw [hcode] at h
      dsimp only at h
      split at h
      · cases h
      · rename_i hne
        cases h
        exact .bytes hcode (by simpa using hne)
  | assembly maxStack maxLocals =>
      rw [hcode] at h
      dsimp only at h
      cases hassemble : m.assembler.assemble with
      | error e =>
          rw [hassemble] at h
          cases h
      | ok code =>
          rw [hassemble] at h
          dsimp only at h
          split at h
          · cases h
          · rename_i hne
            cases h
            exact .assembly hcode hassemble (by simpa using hne)

theorem MethodDraft.Finishes.nonempty {m : MethodDraft} {maxStack maxLocals : UInt16}
    {code : List UInt8} (h : m.Finishes (some (maxStack, maxLocals, code))) : code ≠ [] := by
  cases h with
  | bytes _ hne => exact hne
  | assembly _ _ hne => exact hne

namespace DeclaredMethod.Models

variable {p : Pool} {m : MethodDraft} {d : DeclaredMethod} {maxStack maxLocals : UInt16}
  {code : List UInt8}

theorem finished?_eq (h : d.Models p m) {finished : Option (UInt16 × UInt16 × List UInt8)}
    (hfinishes : m.Finishes finished) : d.finished? = finished := by
  rw [finished?, ← h.code, ← h.assembler]
  cases hfinishes with
  | none hcode => rw [hcode]
  | bytes hcode _ => rw [hcode]
  | assembly hcode hassemble _ =>
      rw [hcode, hassemble]
      rfl

/-- Labels are marked inside of the code, or at its end. -/
theorem position?_le (h : d.Models p m) (hfinishes : m.Finishes (some (maxStack, maxLocals, code)))
    {l : Code.LabelId} {position : Nat} (hl : m.assembler.position? l = some position) :
    position ≤ code.length := by
  cases hfinishes with
  | bytes hcode _ =>
      rw [h.idle (by rw [hcode]; rfl)] at hl
      nomatch hl
  | assembly hcode hassemble _ =>
      rw [Array.length_toList, Code.Assembler.size_assemble hassemble]
      exact h.marks l position hl

/-- The code is short enough that its positions can be told. -/
structure Fitting (m : MethodDraft) (code : List UInt8) : Prop where
  finishes : ∃ maxStack maxLocals, m.Finishes (some (maxStack, maxLocals, code))
  short : code.length ≤ 65535

theorem position_eq (h : d.Models p m) (hfitting : Fitting m code) {l : Code.LabelId} {i : UInt16}
    (hl : m.position l = .ok i) : i.toNat = d.position l := by
  obtain ⟨maxStack, maxLocals, hfinishes⟩ := hfitting.finishes
  rw [MethodDraft.position] at hl
  cases hposition : m.assembler.position? l with
  | none =>
      rw [hposition] at hl
      cases hl
  | some position =>
      rw [hposition] at hl
      cases hl
      have hle := Nat.le_trans (h.position?_le hfinishes hposition) hfitting.short
      rw [DeclaredMethod.position, ← h.assembler, hposition]
      exact UInt16.toNat_ofNat_of_lt' (Nat.lt_succ_of_le hle)

theorem handlerRow_eq (h : d.Models p m) (hfitting : Fitting m code) {draft : HandlerDraft}
    {declared : DeclaredHandler} (hhandler : declared.Models p draft) {row : Handler}
    (hrow : m.handlerRow draft = .ok row) :
    row.bounds = d.bounds declared ∧ declared.Catches p row.catchType := by
  have hlabels {start stop target : Code.LabelId} {catchType : UInt16}
      (hrow : m.handlerRow (.labels start stop target catchType) = .ok row) :
      row.bounds = ⟨d.position start, d.position stop, d.position target⟩ ∧
        row.catchType = catchType := by
    obtain ⟨i, hi, hrow⟩ := ok_of_bind hrow
    obtain ⟨j, hj, hrow⟩ := ok_of_bind hrow
    obtain ⟨k, hk, hrow⟩ := ok_of_bind hrow
    cases hrow
    rw [← h.position_eq hfitting hi, ← h.position_eq hfitting hj, ← h.position_eq hfitting hk]
    exact ⟨rfl, rfl⟩
  cases hhandler with
  | all start stop target =>
      obtain ⟨hbounds, hcatch⟩ := hlabels hrow
      exact ⟨hbounds, hcatch⟩
  | named hne hname =>
      obtain ⟨hbounds, hcatch⟩ := hlabels hrow
      refine ⟨hbounds, ?_⟩
      rw [DeclaredHandler.Catches, if_neg hne, hcatch]
      exact hname
  | row =>
      cases hrow
      exact ⟨rfl, rfl⟩

theorem lineEntry_eq (h : d.Models p m) (hfitting : Fitting m code) {line : LineDraft}
    {e : LineEntry} (he : m.lineEntry line = .ok e) : (e.start.toNat, e.line) = d.lineAt line := by
  cases line with
  | entry e' =>
      cases he
      rfl
  | label start line =>
      obtain ⟨i, hi, he⟩ := ok_of_bind he
      cases he
      rw [DeclaredMethod.lineAt, ← h.position_eq hfitting hi]

end DeclaredMethod.Models

/-! ## Methods -/

structure WrittenMethod.Realizes (p : Pool) (w : WrittenMethod) (d : DeclaredMethod) : Prop where
  countable : d.Countable
  finished : w.Finished p
  models : d.Models p w.draft

namespace WrittenMethod.Realizes

variable {p : Pool} {w : WrittenMethod} {d : DeclaredMethod} {b : Body}

theorem finishes (h : w.Realizes p d) :
    w.draft.Finishes (w.body?.map fun b => (b.maxStack, b.maxLocals, b.code.toList)) :=
  MethodDraft.finishes h.finished.code

theorem finishes_body (h : w.Realizes p d) (hb : w.body? = some b) :
    w.draft.Finishes (some (b.maxStack, b.maxLocals, b.code.toList)) := by
  have hfinishes := h.finishes
  rw [hb] at hfinishes
  exact hfinishes

theorem finished?_eq (h : w.Realizes p d) :
    d.finished? = w.body?.map fun b => (b.maxStack, b.maxLocals, b.code.toList) :=
  h.models.finished?_eq h.finishes

theorem fitting (h : w.Realizes p d) (hb : w.body? = some b) (hshort : b.code.size ≤ 65535) :
    DeclaredMethod.Models.Fitting w.draft b.code.toList :=
  ⟨⟨b.maxStack, b.maxLocals, h.finishes_body hb⟩, by rwa [Array.length_toList]⟩

theorem handlers (h : w.Realizes p d) (hb : w.body? = some b) (hshort : b.code.size ≤ 65535) :
    List.Forall₂ (fun handler row => row.bounds = d.bounds handler ∧
      handler.Catches p row.catchType) d.handlers b.handlers :=
  forall₂_of_common h.models.handlers (forall₂_of_mapM (h.finished.handlers b hb))
    fun _ _ _ hmodels hrow => h.models.handlerRow_eq (h.fitting hb hshort) hmodels hrow

theorem lines (h : w.Realizes p d) (hb : w.body? = some b) (hshort : b.code.size ≤ 65535) :
    b.lines.map (fun e => (e.start.toNat, e.line)) = d.lines.map d.lineAt := by
  have hlines := forall₂_of_mapM (h.finished.lines b hb)
  have hsame := map_eq_of_forall₂ (hlines.imp fun _ _ he =>
    h.models.lineEntry_eq (h.fitting hb hshort) he).flip
  rw [h.models.lines] at hsame
  exact hsame

theorem nonempty (h : w.Realizes p d) (hb : w.body? = some b) : 0 < b.code.size := by
  rw [← Array.length_toList]
  exact List.length_pos_iff.mpr (h.finishes_body hb).nonempty

theorem body_legal_iff (h : w.Realizes p d) (hb : w.body? = some b) :
    b.Legal ↔ 0 < b.code.toList.length ∧ b.code.toList.length ≤ 65535 ∧
      ∀ handler ∈ d.handlers, (d.bounds handler).Within b.code.toList.length := by
  rw [Array.length_toList]
  have hrows (hshort : b.code.size ≤ 65535) :
      (∀ handler ∈ d.handlers, (d.bounds handler).Within b.code.size) ↔
        ∀ row ∈ b.handlers, row.bounds.Within b.code.size :=
    forall₂_forall_iff ((h.handlers hb hshort).imp fun _ _ hrow => by rw [hrow.1])
  constructor
  · intro hlegal
    have hshort : b.code.size ≤ 65535 := Nat.le_of_lt_succ hlegal.short
    exact ⟨hlegal.nonempty, hshort, (hrows hshort).mpr hlegal.handlers⟩
  · rintro ⟨hnonempty, hshort, hhandlers⟩
    exact ⟨hnonempty, Nat.lt_succ_of_le hshort, (hrows hshort).mp hhandlers⟩

theorem legal_iff (h : w.Realizes p d) : (w.read p).Legal ↔ d.Legal := by
  rw [Method.Legal, DeclaredMethod.Legal, h.finished?_eq]
  cases hb : w.body? with
  | none =>
      have hread : (w.read p).body? = none := hb
      rw [hread, Option.map_none, ← h.models.flags]
      exact Iff.rfl
  | some b =>
      have hread : (w.read p).body? = some b := hb
      rw [hread, Option.map_some]
      exact h.body_legal_iff hb

theorem describesBody (h : w.Realizes p d) (hb : w.body? = some b) (hlegal : b.Legal) :
    d.DescribesBody p b := by
  have hshort : b.code.size ≤ 65535 := Nat.le_of_lt_succ hlegal.short
  refine ⟨?_, h.handlers hb hshort, h.lines hb hshort⟩
  rw [h.finished?_eq, hb]
  rfl

theorem describes (h : w.Realizes p d) (hlegal : (w.read p).Legal) : d.Describes p (w.read p) where
  flags := h.models.flags
  name := Pool.text_of_utf8 h.models.name
  descriptor := Pool.text_of_utf8 h.models.descriptor
  body := by
    have hfinishes := h.finishes
    have hread : (w.read p).body? = w.body? := rfl
    rw [Method.Legal, hread] at hlegal
    rw [hread]
    cases hb : w.body? with
    | none =>
        rw [hb] at hfinishes
        cases hfinishes with
        | none hcode => exact h.models.code.symm.trans hcode
    | some b =>
        rw [hb] at hlegal
        exact h.describesBody hb hlegal
  throws := (map_eq_of_forall₂ (h.models.throws.imp fun _ _ h => Pool.nameOf_of_className h)).trans
    (List.map_id _)

theorem fits (h : w.Realizes p d) {code exceptions : UInt16} (hcode : p.utf8 code = .ok "Code")
    (hexceptions : w.draft.throws ≠ [] → p.utf8 exceptions = .ok "Exceptions") :
    w.Fits p code exceptions where
  name := Pool.hasText_of_utf8 h.models.name
  descriptor := Pool.hasText_of_utf8 h.models.descriptor
  typed := by
    rw [Pool.text_of_utf8 h.models.descriptor]
    exact h.models.typed
  throws := fun i hi => by
    obtain ⟨name, -, hname⟩ := forall₂_exists h.models.throws hi
    exact Pool.hasName_of_className hname
  throwsCount := by
    rw [h.models.throws.length_eq]
    exact Nat.lt_succ_of_le h.countable.throws
  throwsNamed := hexceptions
  codeNamed := hcode
  body := fun b hb => by
    refine ⟨?_, ?_, h.finished.named b hb⟩
    · rw [← (forall₂_of_mapM (h.finished.handlers b hb)).length_eq, h.models.handlers.length_eq]
      exact Nat.lt_succ_of_le h.countable.handlers
    · rw [← (forall₂_of_mapM (h.finished.lines b hb)).length_eq, h.models.lines]
      exact Nat.lt_succ_of_le h.countable.lines
  nonempty := fun b hb => h.nonempty hb
  short := fun b hb => by
    have hcode := h.finished?_eq
    rw [hb] at hcode
    have := h.countable.code _ hcode
    rwa [Array.length_toList] at this

end WrittenMethod.Realizes

/-! ## Fields -/

namespace DeclaredField.Models

variable {p : Pool} {f : FieldDraft} {d : DeclaredField}

theorem resolves (h : d.Models p f) : f.Resolves p := by
  obtain ⟨-, hname, hdescriptor, htyped, -⟩ := h
  refine ⟨Pool.hasText_of_utf8 hname, Pool.hasText_of_utf8 hdescriptor, ?_⟩
  rw [Pool.text_of_utf8 hdescriptor]
  exact htyped

theorem describes (h : d.Models p f) : d.Describes p (f.read p) := by
  obtain ⟨hflags, hname, hdescriptor, -, hvalue⟩ := h
  exact ⟨hflags, Pool.text_of_utf8 hname, Pool.text_of_utf8 hdescriptor, hvalue⟩

end DeclaredField.Models

/-! ## Classes -/

structure WrittenClass.Realizes (w : WrittenClass) (d : Declared) : Prop where
  countable : d.Countable
  sound : w.builder.Sound
  models : d.Models w.pool w.builder
  drafts : w.methods.map (·.draft) = w.builder.methods
  finished : ∀ m ∈ w.methods, m.Finished w.pool
  named : w.names.Present w.pool w.builder

namespace WrittenClass.Realizes

variable {w : WrittenClass} {d : Declared}

theorem methods (h : w.Realizes d) :
    List.Forall₂ (WrittenMethod.Realizes w.pool) w.methods d.methods := by
  have hmodels := h.models.methods
  rw [← h.drafts, List.forall₂_map_left_iff] at hmodels
  exact (forall₂_and_right ((List.forall₂_and_left _ _).mpr ⟨h.finished, hmodels⟩)
    h.countable.methods).imp fun _ _ ⟨hcountable, hfinished, hmodels⟩ =>
      ⟨hcountable, hfinished, hmodels⟩

theorem fits (h : w.Realizes d) : w.Fits where
  layout := h.sound.layout
  size := Nat.lt_succ_of_le h.sound.size
  this := Pool.hasName_of_className h.models.name
  super := fun hne => by
    have hsuper := h.models.superName
    split at hsuper
    · exact absurd hsuper hne
    · exact Pool.hasName_of_className hsuper
  interfaces := fun i hi => by
    obtain ⟨name, -, hname⟩ := forall₂_exists h.models.interfaces hi
    exact Pool.hasName_of_className hname
  interfacesCount := by
    rw [h.models.interfaces.length_eq]
    exact Nat.lt_succ_of_le h.countable.interfaces
  fields := fun f hf => by
    obtain ⟨df, -, hmodels⟩ := forall₂_exists h.models.fields hf
    exact hmodels.resolves
  fieldsNamed := h.named.constantValue
  fieldsCount := by
    rw [h.models.fields.length_eq]
    exact Nat.lt_succ_of_le h.countable.fields
  drafts := h.drafts.symm
  methods := fun m hm => by
    obtain ⟨dm, -, hrealizes⟩ := forall₂_exists h.methods hm
    exact hrealizes.fits h.named.code
      (h.named.exceptions m.draft (h.drafts ▸ List.mem_map_of_mem hm))
  methodsCount := by
    rw [h.methods.length_eq]
    exact Nat.lt_succ_of_le h.countable.methodsCount
  sourceFile := fun hne => by
    have hsource := h.models.sourceFile
    rw [if_neg hne] at hsource
    exact Pool.hasText_of_utf8 hsource
  sourceFileNamed := h.named.sourceFile

theorem legal_iff (h : w.Realizes d) : w.Legal ↔ d.Legal := by
  have hversion : (Parser.minMajor ≤ w.builder.version.major ∧
      w.builder.version.major ≤ Parser.maxMajor) ↔
        45 ≤ d.version.major.toNat ∧ d.version.major.toNat ≤ 69 := by
    rw [h.models.version]
    exact Iff.rfl
  have hsuper : (w.builder.super = 0 → w.pool.nameOf w.builder.this = rootClassName) ↔
      d.superName ≠ "" ∨ d.name = rootClassName := by
    have hmodels := h.models.superName
    rw [Pool.nameOf_of_className h.models.name]
    split at hmodels
    · rename_i hnone
      simp [hmodels, hnone]
    · rename_i hsome
      simp [Pool.ne_zero_of_className hmodels, hsome]
  have hmethods : (∀ m ∈ w.methods, (m.read w.pool).Legal) ↔ ∀ m ∈ d.methods, m.Legal :=
    forall₂_forall_iff (h.methods.imp fun _ _ hrealizes => hrealizes.legal_iff)
  rw [WrittenClass.legal_iff, hversion, hsuper, hmethods]
  exact ⟨fun ⟨hv, hs, hm⟩ => ⟨hv, hs, hm⟩, fun ⟨hv, hs, hm⟩ => ⟨hv, hs, hm⟩⟩

theorem describes (h : w.Realizes d) (hlegal : w.Legal) : d.Describes w.pool w.read where
  version := h.models.version
  pool := rfl
  flags := h.models.flags
  name := Pool.nameOf_of_className h.models.name
  superName := by
    have hmodels := h.models.superName
    show (if w.builder.super = 0 then "" else w.pool.nameOf w.builder.super) = _
    split at hmodels
    · rename_i hnone
      rw [if_pos hmodels, hnone]
    · rw [if_neg (Pool.ne_zero_of_className hmodels), Pool.nameOf_of_className hmodels]
  interfaces := (map_eq_of_forall₂
    (h.models.interfaces.imp fun _ _ hname => Pool.nameOf_of_className hname)).trans (List.map_id _)
  fields := List.forall₂_map_right_iff.mpr
    (h.models.fields.imp fun _ _ hmodels => hmodels.describes).flip
  methods := by
    have hboth := (List.forall₂_and_left _ _).mpr ⟨hlegal.methods, h.methods⟩
    exact List.forall₂_map_right_iff.mpr
      (hboth.imp fun _ _ ⟨hlegal, hrealizes⟩ => hrealizes.describes hlegal).flip
  sourceFile := by
    have hmodels := h.models.sourceFile
    show (if w.builder.sourceFile = 0 then "" else w.pool.text w.builder.sourceFile) = _
    split at hmodels
    · rename_i hnone
      rw [if_pos hnone, hmodels]
    · rename_i hsome
      rw [if_neg hsome, Pool.text_of_utf8 hmodels]

end WrittenClass.Realizes

/-- What is written is what was declared. -/
theorem Builder.realizes_bytes {name super : String} {calls : List Call} {bs : List UInt8}
    {b : Builder} (hbytes : bytes.run (build name super calls) = (.ok bs, b))
    (hcountable : (Declared.ofCalls name super calls).Countable) :
    ∃ w : WrittenClass, w.builder = b ∧ w.bytes = bs ∧
      w.Realizes (Declared.ofCalls name super calls) := by
  have hresult : (bytes (build name super calls)).1 = .ok bs := congrArg Prod.fst hbytes
  have hlast : (bytes (build name super calls)).2 = b := congrArg Prod.snd hbytes
  have hbuild := build_models name super calls
  have hwrite := performs_bytes (build name super calls) hbuild.sound
  have hok := error?_of_bytes hresult
  obtain ⟨hkeeps, hwritten⟩ := hwrite.post hok _ (.refl _)
  obtain ⟨names, ws, hbs, hdrafts, hfinished, hpresent⟩ := hwritten bs hresult
  have hmodels := hbuild.post (hwrite.error hok) _ hwrite.grows
  rw [hlast] at hwrite hkeeps hbs hfinished hpresent hmodels
  refine ⟨⟨b, names, ws⟩, rfl, hbs.symm, hcountable, hwrite.sound, hmodels.keeps hkeeps, ?_,
    hfinished, hpresent.keeps hkeeps⟩
  have hmethods : b.methods = (build name super calls).methods := by rw [hkeeps]
  exact hdrafts.trans hmethods.symm

theorem WrittenClass.Realizes.parse_eq {w : WrittenClass} {d : Declared} (h : w.Realizes d)
    (hlegal : d.Legal) : parse w.bytes = .ok w.read := by
  have hread := reads_classFile h.fits
  rw [if_pos (h.legal_iff.mpr hlegal)] at hread
  exact Parser.runOn_of_reads hread

theorem WrittenClass.Realizes.parse_refuses {w : WrittenClass} {d : Declared} (h : w.Realizes d)
    (hillegal : ¬ d.Legal) : ∃ e, parse w.bytes = .error e := by
  have hread := reads_classFile h.fits
  rw [if_neg fun hlegal => hillegal (h.legal_iff.mp hlegal)] at hread
  exact Parser.runOn_of_refused hread

/-- A class that is written can be read exactly if what was declared is legal, and what is read is
what was declared. -/
theorem parse_bytes {name super : String} {calls : List Call} {bs : List UInt8} {b : Builder}
    (hbytes : Builder.bytes.run (Builder.build name super calls) = (.ok bs, b))
    (hcountable : (Declared.ofCalls name super calls).Countable) :
    ((∃ file, parse bs = .ok file) ↔ (Declared.ofCalls name super calls).Legal) ∧
      ∀ file, parse bs = .ok file →
        (Declared.ofCalls name super calls).Describes b.pool file := by
  obtain ⟨w, rfl, rfl, hw⟩ := Builder.realizes_bytes hbytes hcountable
  by_cases hlegal : (Declared.ofCalls name super calls).Legal
  · have hparse := hw.parse_eq hlegal
    refine ⟨⟨fun _ => hlegal, fun _ => ⟨w.read, hparse⟩⟩, fun file hfile => ?_⟩
    cases hparse.symm.trans hfile
    exact hw.describes (hw.legal_iff.mpr hlegal)
  · obtain ⟨e, hparse⟩ := hw.parse_refuses hlegal
    have hnone (file : ClassFile) : parse w.bytes ≠ .ok file := fun hfile =>
      nomatch hparse.symm.trans hfile
    exact ⟨⟨fun ⟨file, hfile⟩ => absurd hfile (hnone file), fun h => absurd h hlegal⟩,
      fun file hfile => absurd hfile (hnone file)⟩

theorem DeclaredMethod.Describes.length_lines {p : Pool} {d : DeclaredMethod} {m : Method}
    (h : d.Describes p m) : ((m.body?.map (·.lines)).getD []).length =
      if d.finished?.isSome then d.lines.length else 0 := by
  have hbody := h.body
  cases hb : m.body? with
  | none =>
      rw [hb] at hbody
      have hnone : d.finished? = none := by rw [finished?, hbody]
      rw [hnone]
      rfl
  | some b =>
      rw [hb] at hbody
      have hlines := congrArg List.length hbody.lines
      rw [List.length_map, List.length_map] at hlines
      rw [hbody.code]
      exact hlines

/-! ## A shape -/

namespace Shape

/-- One method has code.  The other has none; a row and a line are given for it all the same. -/
def calls : List Call := [
  .setFlags (Access.isPublic ||| Access.isSuper ||| Access.isAbstract),
  .addConstantField (Access.isStatic ||| Access.isFinal) "SIDES" "I" (.int 4),
  .addMethod (Access.isPublic ||| Access.isAbstract) "area" "()I",
  .changeMethod 0 (.addHandler ⟨5, 3, 0, 0⟩),
  .changeMethod 0 (.addLine ⟨0, 7⟩),
  .addMethod (Access.isPublic ||| Access.isStatic) "sides" "()I",
  .changeMethod 1 (.startAssembly 1 0),
  .changeMethod 1 (.emit (.here "start")),
  .changeMethod 1 (.emit (.int 4)),
  .changeMethod 1 (.emit (.plain [.ireturn])),
  .changeMethod 1 (.emit (.here "end")),
  .changeMethod 1 (.protect ⟨0⟩ ⟨1⟩ ⟨0⟩ "java/lang/Exception"),
  .changeMethod 1 (.addLineAt ⟨0⟩ 9),
  .changeMethod 1 (.addThrows "java/lang/Exception"),
  .setSourceFile "Shape.java"]

def declared : Declared := .ofCalls "Shape" rootClassName calls

theorem written :
    ∃ bs b, Builder.bytes.run (Builder.build "Shape" rootClassName calls) = (.ok bs, b) :=
  Builder.bytes_ok (by decide) (by decide) (by decide +kernel) (by decide) (by decide)

theorem countable : declared.Countable := ⟨by decide, by decide, by decide, by decide⟩

theorem legal : declared.Legal := ⟨by decide, by decide, by decide⟩

theorem parse_bytes_shape :
    ∃ bs b file, Builder.bytes.run (Builder.build "Shape" rootClassName calls) = (.ok bs, b) ∧
      declared.Countable ∧ parse bs = .ok file ∧ declared.Describes b.pool file := by
  obtain ⟨bs, b, hbytes⟩ := written
  obtain ⟨hreadable, hdescribes⟩ := parse_bytes hbytes countable
  obtain ⟨file, hfile⟩ := hreadable.mpr legal
  exact ⟨bs, b, file, hbytes, countable, hfile, hdescribes file hfile⟩

/-- The class is read although a row is given that is not inside of any code, and the line of the
method without code is not read back. -/
theorem reads_rows_without_code :
    ∃ bs b file, Builder.bytes.run (Builder.build "Shape" rootClassName calls) = (.ok bs, b) ∧
      declared.Countable ∧ parse bs = .ok file ∧
      (∃ m ∈ declared.methods, ∃ h ∈ m.handlers, (m.bounds h).stop < (m.bounds h).start) ∧
      declared.methods.map (·.lines.length) = [1, 1] ∧
      file.methods.map (fun m => ((m.body?.map (·.lines)).getD []).length) = [0, 1] := by
  obtain ⟨bs, b, hbytes⟩ := written
  obtain ⟨w, rfl, rfl, hw⟩ := Builder.realizes_bytes hbytes countable
  have hmethods := (hw.describes (hw.legal_iff.mpr legal)).methods
  refine ⟨_, _, w.read, hbytes, countable, hw.parse_eq legal, by decide, by decide, ?_⟩
  rw [← map_eq_of_forall₂ (hmethods.imp fun _ _ h => h.length_lines.symm)]
  decide

end Shape

end ClassEngine.ClassFile
