import ClassEngine.Proofs.ClassFile.Attributes

/-!
# Members are read back

Fields are read as they are written.  A method is read if its code is legal: it has 1 to 65535
bytes, and the rows of its exception table are inside of them.
-/

namespace ClassEngine.ClassFile

open BigEndian
open ClassFile.Parser

variable {p : Pool}

/-! ## Fields -/

theorem reads_memberHeader (flags : UInt16) {name descriptor : UInt16} (hname : p.HasText name)
    (hdescriptor : p.HasText descriptor) :
    Reads (memberHeader p) (bytes16 flags ++ (bytes16 name ++ bytes16 descriptor))
      (some (flags, p.text name, p.text descriptor)) := by
  refine (reads_u2 _).bind ((reads_u2 _).bind ((reads_u2 _).bind_last ?_))
  exact (reads_fromPool hname).bind_skip (reads_fromPool hdescriptor).map

namespace FieldDraft

def read (p : Pool) (f : FieldDraft) : Field :=
  ⟨f.flags, p.text f.name, p.text f.descriptor, f.constant⟩

structure Resolves (p : Pool) (f : FieldDraft) : Prop where
  name : p.HasText f.name
  descriptor : p.HasText f.descriptor
  typed : ∃ t, FieldType.parse (p.text f.descriptor) = .ok t

end FieldDraft

theorem reads_field {f : FieldDraft} {constantValue : UInt16} (h : f.Resolves p)
    (hname : f.constant ≠ 0 → p.utf8 constantValue = .ok "ConstantValue") (index : Nat) :
    Reads (field p index) (Builder.encodeField constantValue f) (some (f.read p)) := by
  have hattributes : Reads
      (attributes p fieldAttribute ⟨f.flags, p.text f.name, p.text f.descriptor, 0⟩)
      (if f.constant = 0 then bytes16 0
      else bytes16 1 ++ Builder.encodeAttribute constantValue (bytes16 f.constant))
      (some (f.read p)) := by
    split
    · rename_i hzero
      rw [FieldDraft.read, hzero]
      exact reads_no_attributes _
    · rename_i hne
      have hfits : Attribute.Fits p ⟨constantValue, "ConstantValue", bytes16 f.constant⟩ :=
        ⟨hname hne, by simp [bytes16]⟩
      refine reads_attribute hfits ?_
      simp only [fieldAttribute, if_true, bytes16, join16_bytes16]
      rfl
  obtain ⟨t, ht⟩ := h.typed
  have htype : (FieldType.parse (p.text f.descriptor)).mapError ParseError.descriptor = .ok t := by
    rw [ht]
    rfl
  have hheader := (reads_memberHeader f.flags h.name h.descriptor).within (.fieldAt index)
  rw [Builder.encodeField, List.append_assoc _ _ (bytes16 f.descriptor)]
  refine hheader.bind ?_
  exact ((reads_lift htype).bind_skip hattributes).within _

/-! ## Code -/

structure Bounds where
  start : Nat
  stop : Nat
  target : Nat
  deriving DecidableEq, Repr

def Handler.bounds (h : Handler) : Bounds := ⟨h.start.toNat, h.stop.toNat, h.target.toNat⟩

def Bounds.Within (r : Bounds) (length : Nat) : Prop :=
  r.start < r.stop ∧ r.stop ≤ length ∧ r.target < length

instance (r : Bounds) (length : Nat) : Decidable (r.Within length) :=
  inferInstanceAs (Decidable (_ ∧ _ ∧ _))

theorem reads_handler (h : Handler) (length index : Nat) :
    Reads (handler length index) (MethodDraft.encodeHandler h)
      (if h.bounds.Within length then some h else none) := by
  rw [MethodDraft.encodeHandler, List.append_assoc, List.append_assoc]
  refine (reads_u2 _).bind ((reads_u2 _).bind ((reads_u2 _).bind ((reads_u2 _).bind_last ?_)))
  have hcheck : (decide (h.stop ≤ h.start) || decide (length < h.stop.toNat) ||
      decide (length ≤ h.target.toNat)) = true ↔ ¬ h.bounds.Within length := by
    simp only [Bool.or_eq_true, decide_eq_true_eq, Bounds.Within, Handler.bounds,
      UInt16.le_iff_toNat_le]
    omega
  have hguard := Reads.guard (e := .handlerRange index) (c := (decide (h.stop ≤ h.start) ||
    decide (length < h.stop.toNat) || decide (length ≤ h.target.toNat)) = true) (p := pure h)
    fun _ => reads_pure h
  simp only [hcheck, ite_not] at hguard ⊢
  exact hguard

theorem reads_lineEntry (e : LineEntry) (index : Nat) :
    Reads (lineEntry index) (MethodDraft.encodeLine e) (some e) :=
  (reads_u2 e.start).bind (reads_u2 e.line).map

theorem length_encodeLines (lines : List LineEntry) :
    (MethodDraft.count16 lines ++ lines.flatMap MethodDraft.encodeLine).length =
      2 + 4 * lines.length := by
  have heach (e : LineEntry) : (MethodDraft.encodeLine e).length = 4 := rfl
  rw [List.length_append, List.length_flatMap, List.map_congr_left fun e _ => heach e,
    List.map_const', List.sum_replicate_nat, Nat.mul_comm]
  rfl

theorem reads_lineTable {lines : List LineEntry} (hcount : lines.length < 65536) :
    Reads (lineTable (2 + 4 * lines.length))
      (MethodDraft.count16 lines ++ lines.flatMap MethodDraft.encodeLine) (some lines) := by
  have hrounds := reads_rounds (fun e (_ : e ∈ lines) i => reads_lineEntry e i) 0
  rw [mapM_some (fun e => e), List.map_id'] at hrounds
  refine (reads_u2 _).bind ?_
  rw [UInt16.toNat_ofNat_of_lt' hcount, if_neg (not_not.mpr rfl)]
  exact hrounds

theorem bodyAttribute_lines {lines : List LineEntry} (hcount : lines.length < 65536) :
    bodyAttribute "LineNumberTable"
      (MethodDraft.count16 lines ++ lines.flatMap MethodDraft.encodeLine) [] = .ok lines := by
  have hread := reads_lineTable hcount 0 []
  rw [← length_encodeLines, List.append_nil] at hread
  rw [bodyAttribute, if_pos rfl, hread]
  rfl

namespace Body

def encode (lineTable : UInt16) (b : Body) : List UInt8 :=
  bytes16 b.maxStack ++ (bytes16 b.maxLocals ++ (MethodDraft.count32 b.code.size ++
    (b.code.toList ++ (MethodDraft.count16 b.handlers ++
      b.handlers.flatMap MethodDraft.encodeHandler ++
        if b.lines.isEmpty then bytes16 0
        else bytes16 1 ++ Builder.encodeAttribute lineTable
          (MethodDraft.count16 b.lines ++ b.lines.flatMap MethodDraft.encodeLine)))))

/-- The code is not empty, its length can be told, and its rows are inside of it. -/
structure Legal (b : Body) : Prop where
  nonempty : 0 < b.code.size
  short : b.code.size < 65536
  handlers : ∀ h ∈ b.handlers, h.bounds.Within b.code.size

instance (b : Body) : Decidable b.Legal :=
  decidable_of_iff (0 < b.code.size ∧ b.code.size < 65536 ∧
      ∀ h ∈ b.handlers, h.bounds.Within b.code.size)
    ⟨fun ⟨h, h', h''⟩ => ⟨h, h', h''⟩, fun ⟨h, h', h''⟩ => ⟨h, h', h''⟩⟩

/-- The tables are not longer than their counts can tell, and the name of the line table is there
if it is used. -/
structure Fits (b : Body) (p : Pool) (lineTable : UInt16) : Prop where
  handlers : b.handlers.length < 65536
  lines : b.lines.length < 65536
  named : b.lines ≠ [] → p.utf8 lineTable = .ok "LineNumberTable"

end Body

theorem reads_handlers {rows : List Handler} (hcount : rows.length < 65536) (length : Nat) :
    Reads (table (handler length))
      (MethodDraft.count16 rows ++ rows.flatMap MethodDraft.encodeHandler)
      (if ∀ h ∈ rows, h.bounds.Within length then some rows else none) := by
  have htable := reads_table hcount fun h (_ : h ∈ rows) i => reads_handler h length i
  rw [mapM_guard (fun h => h), List.map_id'] at htable
  exact htable

theorem reads_lines {b : Body} {lineTable : UInt16} (h : b.Fits p lineTable) :
    Reads (attributes p bodyAttribute [])
      (if b.lines.isEmpty then bytes16 0
      else bytes16 1 ++ Builder.encodeAttribute lineTable
        (MethodDraft.count16 b.lines ++ b.lines.flatMap MethodDraft.encodeLine))
      (some b.lines) := by
  split
  · rename_i hempty
    rw [List.isEmpty_iff.mp hempty]
    exact reads_no_attributes []
  · rename_i hsome
    have hfits : Attribute.Fits p ⟨lineTable, "LineNumberTable",
        MethodDraft.count16 b.lines ++ b.lines.flatMap MethodDraft.encodeLine⟩ := by
      refine ⟨h.named (by simpa using hsome), ?_⟩
      have hlines := h.lines
      rw [length_encodeLines]
      omega
    exact reads_attribute hfits (bodyAttribute_lines h.lines)

theorem reads_body {b : Body} {lineTable : UInt16} (h : b.Fits p lineTable)
    (hnonempty : 0 < b.code.size) (hshort : b.code.size < 65536) :
    Reads (body p) (b.encode lineTable) (if b.Legal then some b else none) := by
  have hlength : (UInt32.ofNat b.code.size).toNat = b.code.size :=
    UInt32.toNat_ofNat_of_lt' (Nat.lt_trans hshort (by decide))
  have hne : UInt32.ofNat b.code.size ≠ 0 := by
    intro hzero
    rw [hzero] at hlength
    exact Nat.ne_of_lt hnonempty hlength
  have hnot : ¬ 65536 ≤ UInt32.ofNat b.code.size := by
    rw [UInt32.le_iff_toNat_le, hlength]
    exact Nat.not_le_of_lt hshort
  have hrows := reads_handlers h.handlers b.code.size
  refine (reads_u2 _).bind ((reads_u2 _).bind ((reads_u4 _).bind ?_))
  rw [if_neg (by simp [hne, hnot]), hlength]
  refine (reads_bytes b.code.toList).bind ?_
  have hlegal : b.Legal ↔ ∀ row ∈ b.handlers, row.bounds.Within b.code.size :=
    ⟨fun hlegal => hlegal.handlers, fun hwithin => ⟨hnonempty, hshort, hwithin⟩⟩
  simp only [hlegal]
  exact hrows.bind_guard fun _ => (reads_lines h).map

theorem body_truncated {bs : List UInt8} (h : bs.length < 8) (offset : Nat) :
    ∃ e, body p ⟨offset, bs⟩ = .error e := by
  rcases bs with _ | ⟨a, _ | ⟨b, _ | ⟨c, _ | ⟨d, _ | ⟨e, _ | ⟨f, _ | ⟨g, _ | ⟨i, bs⟩⟩⟩⟩⟩⟩⟩⟩
  · exact ⟨_, rfl⟩
  · exact ⟨_, rfl⟩
  · exact ⟨_, rfl⟩
  · exact ⟨_, rfl⟩
  · exact ⟨_, rfl⟩
  · exact ⟨_, rfl⟩
  · exact ⟨_, rfl⟩
  · exact ⟨_, rfl⟩
  · simp only [List.length_cons] at h
    omega

/-- Code that is too long is refused before it is read, also when the end of it is cut off. -/
theorem refuses_long {b : Body} {lineTable : UInt16} (hlong : 65536 ≤ b.code.size)
    (hshort : b.code.size < 4294967296) (count : Nat) (extra : Nat → ParseError) :
    ∃ e, runOn (body p) ((b.encode lineTable).take count) extra = .error e := by
  have hlength : (UInt32.ofNat b.code.size).toNat = b.code.size :=
    UInt32.toNat_ofNat_of_lt' hshort
  have hlarge : 65536 ≤ UInt32.ofNat b.code.size := by
    rw [UInt32.le_iff_toNat_le, hlength]
    exact hlong
  by_cases hcount : 8 ≤ count
  · have hrefuse : Reads (body p) (bytes16 b.maxStack ++ (bytes16 b.maxLocals ++
        MethodDraft.count32 b.code.size)) none := by
      refine (reads_u2 _).bind ((reads_u2 _).bind ((reads_u4 _).bind_last ?_))
      rw [if_pos (by simp [hlarge])]
      exact (reads_fail _).bind_none
    have hsplit : (b.encode lineTable).take count =
        (bytes16 b.maxStack ++ (bytes16 b.maxLocals ++ MethodDraft.count32 b.code.size)) ++
          ((b.encode lineTable).drop 8).take (count - 8) := by
      have hhead : (b.encode lineTable).take 8 =
        bytes16 b.maxStack ++ (bytes16 b.maxLocals ++ MethodDraft.count32 b.code.size) := rfl
      rw [← hhead, ← List.take_add, Nat.add_sub_cancel' hcount]
    exact hsplit ▸ runOn_of_refused (hrefuse.append _)
  · have hcut : ((b.encode lineTable).take count).length < 8 := by
      rw [List.length_take]
      omega
    obtain ⟨e, he⟩ := body_truncated (p := p) hcut 0
    exact ⟨e, by rw [runOn, he]⟩

/-! ## Methods -/

theorem length_encodeThrows (throws : List UInt16) :
    (MethodDraft.count16 throws ++ throws.flatMap bytes16).length = 2 + 2 * throws.length := by
  have heach (i : UInt16) : (bytes16 i).length = 2 := rfl
  rw [List.length_append, List.length_flatMap, List.map_congr_left fun i _ => heach i,
    List.map_const', List.sum_replicate_nat, Nat.mul_comm]
  rfl

theorem reads_throwsTable {throws : List UInt16} (hcount : throws.length < 65536)
    (h : ∀ i ∈ throws, p.HasName i) :
    Reads (throwsTable p (2 + 2 * throws.length))
      (MethodDraft.count16 throws ++ throws.flatMap bytes16) (some (throws.map p.nameOf)) := by
  have heach : ∀ i ∈ throws, ∀ index, Reads (declaredThrow p index) (bytes16 i)
      (some (p.nameOf i)) := fun i hi index => (reads_u2 i).bind_last (reads_fromPool (h i hi))
  have hrounds := reads_rounds heach 0
  rw [mapM_some] at hrounds
  refine (reads_u2 _).bind ?_
  rw [UInt16.toNat_ofNat_of_lt' hcount, if_neg (not_not.mpr rfl)]
  exact hrounds

theorem methodAttribute_throws {throws : List UInt16} (hcount : throws.length < 65536)
    (h : ∀ i ∈ throws, p.HasName i) (m : Method) :
    methodAttribute p "Exceptions" (MethodDraft.count16 throws ++ throws.flatMap bytes16) m =
      .ok { m with throws := throws.map p.nameOf } := by
  have hread := reads_throwsTable hcount h 0 []
  rw [← length_encodeThrows, List.append_nil] at hread
  rw [methodAttribute, if_neg (by decide), if_pos rfl, hread]
  rfl

theorem length_encodeHandlers (rows : List Handler) :
    (rows.flatMap MethodDraft.encodeHandler).length = 8 * rows.length := by
  have heach (h : Handler) : (MethodDraft.encodeHandler h).length = 8 := rfl
  rw [List.length_flatMap, List.map_congr_left fun h _ => heach h, List.map_const',
    List.sum_replicate_nat, Nat.mul_comm]

theorem Body.Fits.length_encode_lt {b : Body} {lineTable : UInt16} (h : b.Fits p lineTable)
    (hshort : b.code.size < 65536) : (b.encode lineTable).length < 4294967296 := by
  have hlines : (if b.lines.isEmpty then bytes16 0
      else bytes16 1 ++ Builder.encodeAttribute lineTable
        (MethodDraft.count16 b.lines ++ b.lines.flatMap MethodDraft.encodeLine)).length ≤
      10 + 4 * b.lines.length := by
    split
    · show 2 ≤ _
      omega
    · rw [List.length_append, length_encodeAttribute, length_encodeLines]
      show 2 + _ ≤ _
      omega
  have hhandlers := h.handlers
  have hcount := h.lines
  simp only [Body.encode, List.length_append, length_encodeHandlers, Array.length_toList]
  simp only [bytes16, MethodDraft.count16, MethodDraft.count32, bytes32, List.length_cons,
    List.length_nil] at hlines ⊢
  omega

theorem methodAttribute_code {bs : List UInt8} {b : Body}
    (h : runOn (body p) bs .codeTrailing = .ok b) (m : Method) :
    methodAttribute p "Code" bs m = .ok { m with body? := some b } := by
  rw [methodAttribute, if_pos rfl, h]
  rfl

theorem methodAttribute_refuses {bs : List UInt8}
    (h : ∃ e, runOn (body p) bs .codeTrailing = .error e) (m : Method) :
    ∃ e, methodAttribute p "Code" bs m = .error e := by
  obtain ⟨e, he⟩ := h
  exact ⟨e, by rw [methodAttribute, if_pos rfl, he]; rfl⟩

def Method.Legal (m : Method) : Prop :=
  match m.body? with
  | none => (m.isAbstract || m.isNative) = true
  | some b => b.Legal

instance (m : Method) : Decidable m.Legal :=
  match h : m.body? with
  | none => decidable_of_iff ((m.isAbstract || m.isNative) = true) (by rw [Method.Legal, h])
  | some b => decidable_of_iff b.Legal (by rw [Method.Legal, h])

structure WrittenMethod where
  draft : MethodDraft
  body? : Option Body
  lineTable : UInt16

namespace WrittenMethod

def bytes? (w : WrittenMethod) : Option (List UInt8) := w.body?.map (·.encode w.lineTable)

def read (p : Pool) (w : WrittenMethod) : Method :=
  ⟨w.draft.flags, p.text w.draft.name, p.text w.draft.descriptor, w.body?,
    w.draft.throws.map p.nameOf⟩

/-- The entries that a method refers to are there, and its tables are short enough. -/
structure Fits (p : Pool) (code exceptions : UInt16) (w : WrittenMethod) : Prop where
  name : p.HasText w.draft.name
  descriptor : p.HasText w.draft.descriptor
  typed : ∃ d, MethodDescriptor.parse (p.text w.draft.descriptor) = .ok d
  throws : ∀ i ∈ w.draft.throws, p.HasName i
  throwsCount : w.draft.throws.length < 65536
  throwsNamed : w.draft.throws ≠ [] → p.utf8 exceptions = .ok "Exceptions"
  codeNamed : p.utf8 code = .ok "Code"
  body : ∀ b, w.body? = some b → b.Fits p w.lineTable
  nonempty : ∀ b, w.body? = some b → 0 < b.code.size
  short : ∀ b, w.body? = some b → b.code.size < 4294967296

variable {code exceptions : UInt16} {w : WrittenMethod}

def throwsAttributes (exceptions : UInt16) (w : WrittenMethod) : List Attribute :=
  if w.draft.throws.isEmpty then []
  else [⟨exceptions, "Exceptions",
    MethodDraft.count16 w.draft.throws ++ w.draft.throws.flatMap bytes16⟩]

def codeAttributes (code : UInt16) (w : WrittenMethod) : List Attribute :=
  w.body?.toList.map fun b => ⟨code, "Code", b.encode w.lineTable⟩

theorem encode_eq (code exceptions : UInt16) (w : WrittenMethod) :
    Builder.encodeMethod code exceptions w.draft w.bytes? =
      bytes16 w.draft.flags ++ (bytes16 w.draft.name ++ bytes16 w.draft.descriptor) ++
        (MethodDraft.count16 (w.codeAttributes code ++ w.throwsAttributes exceptions) ++
          (w.codeAttributes code ++ w.throwsAttributes exceptions).flatMap Attribute.encode) := by
  have hcode : w.bytes?.toList.map (Builder.encodeAttribute code) =
      (w.codeAttributes code).map Attribute.encode := by
    rw [bytes?, codeAttributes]
    cases w.body? <;> rfl
  have hthrows : (if w.draft.throws.isEmpty then []
      else [Builder.encodeAttribute exceptions
        (MethodDraft.count16 w.draft.throws ++ w.draft.throws.flatMap bytes16)]) =
      (w.throwsAttributes exceptions).map Attribute.encode := by
    rw [throwsAttributes]
    split <;> rfl
  rw [Builder.encodeMethod, hcode, hthrows, ← List.map_append, MethodDraft.count16,
    List.length_map, ← List.flatMap_def, MethodDraft.count16]
  simp only [List.append_assoc]

theorem foldlM_throws (h : w.Fits p code exceptions) (m : Method) (hm : m.throws = []) :
    (w.throwsAttributes exceptions).foldlM (fun m a => methodAttribute p a.name a.body m) m =
      .ok { m with throws := w.draft.throws.map p.nameOf } := by
  rw [throwsAttributes]
  split
  · rename_i hempty
    rw [List.isEmpty_iff.mp hempty, List.map_nil, ← hm]
    rfl
  · rw [List.foldlM_cons, methodAttribute_throws h.throwsCount h.throws]
    rfl

theorem throwsAttributes_fit (h : w.Fits p code exceptions) :
    ∀ a ∈ w.throwsAttributes exceptions, a.Fits p := by
  intro a ha
  rw [throwsAttributes] at ha
  split at ha
  · nomatch ha
  · rename_i hsome
    obtain rfl := List.mem_singleton.mp ha
    refine ⟨h.throwsNamed (by simpa using hsome), ?_⟩
    have hcount := h.throwsCount
    rw [length_encodeThrows]
    omega

theorem length_attributes (code exceptions : UInt16) (w : WrittenMethod) :
    (w.codeAttributes code ++ w.throwsAttributes exceptions).length < 65536 := by
  rw [List.length_append, codeAttributes, throwsAttributes]
  cases w.body? <;> split <;> exact of_decide_eq_true rfl

theorem reads_attributes_legal (h : w.Fits p code exceptions)
    (hlegal : ∀ b, w.body? = some b → b.Legal) :
    Reads (attributes p (methodAttribute p)
        ⟨w.draft.flags, p.text w.draft.name, p.text w.draft.descriptor, none, []⟩)
      (MethodDraft.count16 (w.codeAttributes code ++ w.throwsAttributes exceptions) ++
        (w.codeAttributes code ++ w.throwsAttributes exceptions).flatMap Attribute.encode)
      (some (w.read p)) := by
  refine reads_attributes ?_ (length_attributes code exceptions w) ?_
  · intro a ha
    rcases List.mem_append.mp ha with hcode | hthrows
    · obtain ⟨b, hb, rfl⟩ := List.mem_map.mp hcode
      have hbody : w.body? = some b := Option.mem_toList.mp hb
      exact ⟨h.codeNamed, (h.body b hbody).length_encode_lt (hlegal b hbody).short⟩
    · exact throwsAttributes_fit h a hthrows
  · rw [List.foldlM_append, codeAttributes, read]
    cases hbody : w.body? with
    | none => exact foldlM_throws h _ rfl
    | some b =>
        have hread := reads_body (h.body b hbody) (hlegal b hbody).nonempty (hlegal b hbody).short
        have houtcome : (if b.Legal then some b else none) = some b := if_pos (hlegal b hbody)
        rw [houtcome] at hread
        rw [Option.toList_some, List.map_singleton, List.foldlM_cons,
          methodAttribute_code (runOn_of_reads hread)]
        exact foldlM_throws h _ rfl

theorem refuses_attributes_illegal (h : w.Fits p code exceptions) {b : Body}
    (hbody : w.body? = some b) (hillegal : ¬ b.Legal) (m : Method) :
    Reads (attributes p (methodAttribute p) m)
      (MethodDraft.count16 (w.codeAttributes code ++ w.throwsAttributes exceptions) ++
        (w.codeAttributes code ++ w.throwsAttributes exceptions).flatMap Attribute.encode)
      none := by
  have hcount := length_attributes code exceptions w
  rw [codeAttributes, hbody, Option.toList_some, List.map_singleton,
    List.singleton_append] at hcount ⊢
  refine refuses_attributes h.codeNamed hcount (methodAttribute_refuses ?_ m)
  by_cases hshort : b.code.size < 65536
  · have hread := reads_body (h.body b hbody) (h.nonempty b hbody) hshort
    have houtcome : (if b.Legal then some b else none) = none := if_neg hillegal
    rw [houtcome] at hread
    have htold : Attribute.told ⟨code, "Code", b.encode w.lineTable⟩ =
        (b.encode w.lineTable).length :=
      Nat.mod_eq_of_lt ((h.body b hbody).length_encode_lt hshort)
    rw [htold, List.take_length]
    exact runOn_of_refused hread
  · exact refuses_long (Nat.le_of_not_lt hshort) (h.short b hbody) _ _

end WrittenMethod

theorem reads_method {code exceptions : UInt16} {w : WrittenMethod}
    (h : w.Fits p code exceptions) (index : Nat) :
    Reads (method p index) (Builder.encodeMethod code exceptions w.draft w.bytes?)
      (if (w.read p).Legal then some (w.read p) else none) := by
  obtain ⟨d, hd⟩ := h.typed
  have htype : (MethodDescriptor.parse (p.text w.draft.descriptor)).mapError
      ParseError.descriptor = .ok d := by
    rw [hd]
    rfl
  have hheader := (reads_memberHeader w.draft.flags h.name h.descriptor).within
    (.methodAt index)
  rw [WrittenMethod.encode_eq]
  refine hheader.bind (((reads_lift htype).within _).bind_skip ?_)
  by_cases hbodies : ∀ b, w.body? = some b → b.Legal
  · refine (((w.reads_attributes_legal h hbodies)).within _).bind_last ?_
    have hguard := Reads.guard (e := .missingCode (p.text w.draft.name) (p.text w.draft.descriptor))
      (c := ((w.read p).body?.isNone && !(w.read p).isAbstract && !(w.read p).isNative) = true)
      (p := pure (w.read p)) fun _ => reads_pure (w.read p)
    have hcheck : ((w.read p).body?.isNone && !(w.read p).isAbstract &&
        !(w.read p).isNative) = true ↔ ¬ (w.read p).Legal := by
      rw [Method.Legal]
      cases hbody : w.body? with
      | none => simp [WrittenMethod.read, hbody]
      | some b => simp [WrittenMethod.read, hbody, hbodies b hbody]
    simp only [hcheck, ite_not] at hguard ⊢
    exact hguard
  · obtain ⟨b, hb⟩ := not_forall.mp hbodies
    obtain ⟨hbody, hillegal⟩ := Classical.not_imp.mp hb
    have houtcome : (if (w.read p).Legal then some (w.read p) else none) = none := by
      refine if_neg ?_
      rw [Method.Legal, WrittenMethod.read]
      dsimp only
      rw [hbody]
      exact hillegal
    rw [houtcome]
    exact ((w.refuses_attributes_illegal h hbody hillegal _).within _).bind_none

end ClassEngine.ClassFile
