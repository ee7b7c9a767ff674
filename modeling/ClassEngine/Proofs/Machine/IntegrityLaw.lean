import ClassEngine.Proofs.Machine.IntactInstructions
import ClassEngine.Proofs.Machine.PlainRoot
import ClassEngine.Proofs.Machine.Reachability

/-!
# The law of references

Whatever a host asks for, and whatever the code does, a machine stays intact, and the objects on
its heap keep their places and their shapes.
-/

namespace ClassEngine.Machine

namespace Exec

variable {α : Type} {vm : Vm}

/-! ## Initialization -/

def guarding : Effect := fun a _ b => a.Whole → a.Leads b

theorem Guards.has {x : Exec α} [hx : Guards x] : Has guarding x := fun _ h => hx.leads h

instance (f : Field) : Guards (assignConstant f) := by
  unfold assignConstant
  split
  · refine .of_proceeds fun h => ?_
    refine (yields_literal _ _ h).attempt.bind fun {outcome _} hleads hv => ?_
    cases outcome with
    | ok v => exact yields_setStaticSlot f hleads.whole (hv v rfl)
    | error e => exact yields_fault _ hleads.whole
  · infer_instance

theorem preparing_guarding : guarding.Preparing where
  trans h h' ha := (h ha).trans (h' (h ha).whole)
  reads h ha := by
    rw [h.1]
    exact .refl ha
  assigned _ := Guards.has
  moved id state _ h := Guards.leads (x := setState id state) h
  running m _ h := Guards.leads (x := note (.running m)) h
  failed id h ha := (h ha).trans (Guards.leads (x := setState id .failed) (h ha).whole)
  renamed _ h := h

theorem guards_ensureInitialized {runInitializer : Method → Exec Unit}
    (hrun : ∀ m, Guards (runInitializer m)) (id : ClassId) :
    Guards (ensureInitialized runInitializer id) :=
  ⟨fun h => prepares_ensureInitialized preparing_guarding (fun _ => Guards.has) id _ h⟩

/-! ## Exceptions -/

instance (f : Frame) (thrown : ClassId) (h : ClassFile.Handler) : Guards (accepts f thrown h) := by
  unfold accepts
  split
  · infer_instance
  · refine .of_proceeds fun h => yields_bind h fun {outcome _} hleads => ?_
    cases outcome <;> exact yields_of_guards hleads.whole

theorem sequential_guards : Sequential Guards where
  pure _ := inferInstance
  bind _ _ := inferInstance

instance (f : Frame) (thrown : ClassId) (rows : List ClassFile.Handler) :
    Guards (findHandler f thrown rows) :=
  sequential_guards.findHandler (fun _ => inferInstance) rows

instance (base : Nat) (thrown : ClassId) (frames : List Frame) :
    Guards (seekHandler base thrown frames) :=
  sequential_guards.seekHandler base (fun _ _ => inferInstance) frames

theorem holds_of_seekHandler {P : Value → Prop} {base : Nat} {thrown : ClassId}
    {frames frames' : List Frame} {vm' : Vm}
    (h : seekHandler base thrown frames vm = .ok (some frames') vm')
    (hframes : ∀ f ∈ frames, f.Holds P) : ∀ f ∈ frames', f.Holds P := by
  obtain ⟨f, below, pc, hsuffix, -, rfl⟩ := seekHandler_some h
  have hleft (g : Frame) (hg : g ∈ f :: below) : g.Holds P := hframes g (hsuffix.subset hg)
  intro g hg
  rcases List.mem_cons.mp hg with rfl | hg
  · exact ⟨nofun, (hleft f List.mem_cons_self).2⟩
  · exact hleft g (List.mem_cons_of_mem f hg)

instance (r : Ref) : Guards (recordTrace r) := by
  refine guards_of_same fun vm => ?_
  obtain ⟨traces, h⟩ := recordTrace_apply r vm
  rw [after_ok h]
  exact ⟨rfl, rfl, rfl, rfl, rfl⟩

instance (base : Nat) : Guards (cutTo base) :=
  ⟨fun {vm} h => h.leads_of_frames (b := after (cutTo base) vm) rfl rfl rfl
    (fun f hf => h.frames f (List.mem_of_mem_drop hf)) h.result⟩

instance (r : Ref) : Guards (throwableMessage r) := (looks_throwableMessage r).reads.guards

instance (r : Ref) : Guards (traceOf r) := (looks_traceOf r).reads.guards

theorem yields_classOfObject (r : Ref) (h : vm.Whole) :
    Yields (classOfObject r) vm fun _ => Admitted (.ref r) := by
  refine (reads_classOfObject r).yields h fun hok => ?_
  obtain ⟨_, _, hget, hok⟩ := bind_eq_ok hok
  cases hget
  cases ho : vm.heap.get? r with
  | none =>
      rw [ho] at hok
      contradiction
  | some o => exact Heap.admits_of_get? ho

instance (base : Nat) (r : Ref) : Guards (unwind base r) := by
  refine .of_proceeds fun h => yields_bind h fun hleads => ?_
  refine (yields_classOfObject r hleads.whole).bind fun {id _} hleads' hr => ?_
  refine (yields_get hleads'.whole).bind fun {s _} hleads'' hs => ?_
  subst hs
  have hseek : Yields (seekHandler base id s.frames) s fun frames? vm' =>
      ∀ frames, frames? = some frames → ∀ f ∈ frames, f.Holds s.heap.Admits := by
    refine ⟨Guards.leads hleads''.whole, ?_⟩
    rintro _ vm' hok frames rfl
    exact holds_of_seekHandler hok hleads''.whole.frames
  refine hseek.bind fun {frames? _} hleads₃ hframes => ?_
  cases frames? with
  | none => exact yields_of_guards hleads₃.whole
  | some frames =>
      refine yields_bind hleads₃.whole fun {_ vm'} hleads₄ => ?_
      have hadmits := hleads₃.trans hleads₄
      have hset : vm'.Leads { vm' with frames } :=
        hleads₄.whole.leads_of_frames rfl rfl rfl (fun f hf =>
          (hframes frames rfl f hf).mono fun _ hv => hv.mono hadmits.heap) hleads₄.whole.result
      refine (yields_modify hset).bind fun hleads₅ _ => ?_
      exact yields_push hleads₅.whole (hr.mono ((hleads''.trans hadmits).trans hleads₅))

variable {prepare : ClassId → Exec Unit} [hprepare : ∀ id, Guards (prepare id)]

theorem yields_newThrowable (className message : String) (h : vm.Whole) :
    Yields (newThrowable prepare className message) vm fun r => Admitted (.ref r) := by
  refine yields_bind h fun {id _} hleads => yields_bind hleads.whole fun hleads' => ?_
  refine (yields_allocInstance id hleads'.whole).bind fun {r _} hleads'' hr => ?_
  split
  · exact yields_pure hleads''.whole hr
  · refine yields_bind hleads''.whole fun {root _} hleads₃ => ?_
    refine (yields_newString message hleads₃.whole).bind fun {text _} hleads₄ htext => ?_
    refine (yields_setField r root _ hleads₄.whole htext).bind fun hleads₅ _ => ?_
    exact yields_pure hleads₅.whole (hr.mono ((hleads₃.trans hleads₄).trans hleads₅))

instance (base : Nat) (e : Fault) : Guards (raiseFault prepare base e) := by
  unfold raiseFault
  cases e.guestException? with
  | none => infer_instance
  | some exception =>
      refine .of_proceeds fun h => ?_
      refine (yields_newThrowable _ _ h).attempt.bind fun {outcome _} hleads _ => ?_
      cases outcome <;> exact yields_of_guards hleads.whole

/-! ## Rounds and runs -/

def Finished (v? : Option Value) (vm : Vm) : Prop := ∀ v, v? = some v → Admitted v vm

theorem finished_none : Finished none vm := by
  intro v h
  cases h

theorem finished_some {v : Value} (h : Admitted v vm) : Finished (some v) vm := by
  intro w hw
  cases hw
  exact h

theorem yields_finish (base : Nat) (h : vm.Whole) : Yields (finish base) vm Finished := by
  refine yields_bind h fun hleads => (yields_get hleads.whole).bind fun {s _} hleads' hs => ?_
  subst hs
  dsimp only
  split
  · exact yields_pure hleads'.whole (finished_some hleads'.whole.result)
  · split
    · refine (yields_push hleads'.whole hleads'.whole.result).bind fun hleads'' _ => ?_
      exact yields_pure hleads''.whole finished_none
    · exact yields_pure hleads'.whole finished_none

theorem yields_unlessReturning (base : Nat) (x : Exec Unit) [Guards x] (h : vm.Whole) :
    Yields (unlessReturning base x) vm Finished := by
  have heq := unlessReturning_apply base x vm
  split at heq
  · exact (yields_finish base h).of_eq (.refl h) heq
  · have hx : Yields (do x; return none : Exec (Option Value)) vm Finished :=
      yields_bind h fun hleads => yields_pure hleads.whole finished_none
    exact hx.of_eq (.refl h) heq

theorem yields_advance (base : Nat) (h : vm.Whole) :
    Yields (advance prepare base) vm Finished := by
  have hround : vm.Leads (after (round prepare) vm) := by
    have : Guards advance.countInstruction := by
      unfold advance.countInstruction
      infer_instance
    exact Guards.leads h
  have heq : advance prepare base vm = _ := advance_apply
  cases hcase : round prepare vm with
  | ok u vm' =>
      rw [after_ok hcase] at hround
      rw [hcase] at heq
      exact (yields_unlessReturning base (pure ()) hround.whole).of_eq hround heq
  | error stop vm' =>
      rw [after_error hcase] at hround
      rw [hcase] at heq
      cases stop with
      | thrown r =>
          exact (yields_unlessReturning base (unwind base r) hround.whole).of_eq hround heq
      | fault e =>
          exact (yields_unlessReturning base (raiseFault prepare base e) hround.whole).of_eq
            hround heq
      | defect | undefined | exhausted => exact yields_of_error hround heq

theorem Yields.contain {x : Exec α} {Q : α → Vm → Prop} (hx : Yields x vm Q) (base : Nat) :
    Yields (contain base x) vm Q := by
  cases hcase : x vm with
  | ok a vm' =>
      have hleads := hx.ok hcase
      apply (yields_pure hleads.whole (hx.gives hcase)).of_eq hleads
      rw [contain_apply, hcase]
      rfl
  | error stop vm' =>
      have hleads := hx.leads
      rw [after_error hcase] at hleads
      cases stop with
      | defect d =>
          have hcut : Yields (do cutTo base; clearReturn; fault (.internal d) : Exec α) vm' Q :=
            yields_bind hleads.whole fun hleads' =>
              yields_bind hleads'.whole fun hleads'' => yields_fault _ hleads''.whole
          apply hcut.of_eq hleads
          rw [contain_apply, hcase]
      | fault | thrown | undefined | exhausted =>
          apply yields_of_error hleads
          rw [contain_apply, hcase]

theorem leads_released (h : vm.Whole) (journal : List Event) :
    vm.Leads (released { vm with journal }) := by
  have hjournal : vm.Leads { vm with journal } := h.leads_of_frames rfl rfl rfl h.frames h.result
  unfold released
  split
  · exact hjournal.trans (hjournal.whole.leads_of_frames rfl rfl rfl hjournal.whole.frames
      hjournal.whole.result)
  · exact hjournal

theorem Yields.release {x : Exec Value} (hx : Yields x vm Admitted) :
    Yields (releaseTraces (noteEnd x)) vm Admitted := by
  have heq := releaseTraces_noteEnd_apply x vm
  cases hcase : x vm with
  | ok v vm' =>
      rw [hcase] at heq
      have hleads := leads_released (hx.ok hcase).whole vm'.journal
      have hv := (hx.gives hcase).mono hleads
      exact (yields_pure hleads.whole hv).of_eq ((hx.ok hcase).trans hleads) heq
  | error stop vm' =>
      have hleads := hx.leads
      rw [after_error hcase] at hleads
      rw [hcase] at heq
      cases stop with
      | fault e => exact yields_of_error (hleads.trans (leads_released hleads.whole _)) heq
      | thrown | defect | undefined | exhausted =>
          exact yields_of_error (hleads.trans (leads_released hleads.whole vm'.journal)) heq

/-- Every run with this many rounds gives a value that the machine admits. -/
def Gives (run : Nat → Exec Value) : Prop :=
  ∀ (base : Nat) {vm : Vm}, vm.Whole → Yields (run base) vm Admitted

theorem yields_executeBy {run : Nat → Exec Value} (hrun : Gives run) (m : Method)
    {args : List Value} (h : vm.Whole) (hargs : ∀ v ∈ args, Admitted v vm) :
    Yields (executeBy run m args) vm Admitted := by
  unfold executeBy
  dsimp only
  split
  · exact yields_fault_bind _ h
  · cases m.body? with
    | none => exact yields_fault _ h
    | some body =>
        refine yields_bind h fun {_ vm'} hleads => ?_
        split
        · exact yields_fault_bind _ hleads.whole
        · cases hbind : bindArguments m body args with
          | error d => exact yields_fault _ hleads.whole
          | ok locals =>
              refine (yields_get hleads.whole).bind fun {s _} hleads' hs => ?_
              subst hs
              have hkept := hleads.trans hleads'
              have hlocals := bindArguments_holds s.heap.lenient_admits
                (fun v hv => (hargs v hv).mono hkept) hbind
              refine (yields_enter hleads'.whole hlocals).bind fun hleads'' _ => ?_
              exact (hrun _ hleads''.whole).release

theorem guards_initializeBy {run : Nat → Exec Value} (hrun : Gives run) (id : ClassId) :
    Guards (initializeBy run id) := by
  refine guards_ensureInitialized (fun m => .of_proceeds fun h => ?_) id
  exact (yields_executeBy hrun m h (by simp)).bind fun hleads _ => yields_of_guards hleads.whole

theorem gives_run (fuel : Nat) : Gives (run fuel) := by
  induction fuel with
  | zero => exact fun base vm h => yields_throw _ h
  | succ fuel ih =>
      intro base vm h
      have hprepare (id : ClassId) : Guards (initializeBy (run fuel) id) :=
        guards_initializeBy ih id
      refine ((yields_advance base h).contain base).bind fun {v? _} hleads hv => ?_
      cases v? with
      | some v => exact yields_pure hleads.whole (hv v rfl)
      | none => exact ih base hleads.whole

theorem gives_interrupted {r : Nat → Exec Value} {fuel : Nat} (hr : Interrupts r (run fuel)) :
    Gives r := by
  intro base vm h
  rcases hr base vm with heq | heq
  · exact (gives_run fuel base h).of_eq (.refl h) heq
  · exact yields_of_error (.refl h) heq

/-! ## Requests -/

instance (fuel : Nat) (id : ClassId) : Guards (initialized fuel id) :=
  guards_initializeBy (gives_run fuel) id

theorem yields_invokeMethod (fuel : Nat) (m : Method) {args : List Value} (h : vm.Whole)
    (hargs : ∀ v ∈ args, Admitted v vm) : Yields (invokeMethod fuel m args) vm Admitted := by
  unfold invokeMethod
  dsimp only
  split
  · refine yields_bind h fun hleads => ?_
    exact yields_executeBy (gives_run fuel) m hleads.whole fun v hv => (hargs v hv).mono hleads
  · exact yields_executeBy (gives_run fuel) m h hargs

instance (id : ClassId) (index : UInt16) : Guards (literal id index) :=
  .of_yields (yields_literal id index)

end Exec

/-- The host hands over values of the machine, and makes arrays only of array classes. -/
def HostCall.Admissible (vm : Vm) : HostCall → Prop
  | .request _ (.invoke _ args) => ∀ v ∈ args, vm.heap.Admits v
  | .request _ (.invokeStatic _ _ _ args) => ∀ v ∈ args, vm.heap.Admits v
  | .newArray id _ => Exec.NamesArray id vm
  | .storeElement _ _ v => vm.heap.Admits v
  | .setField _ _ _ v => vm.heap.Admits v
  | _ => True

namespace Exec

variable {α : Type} {vm : Vm}

theorem yields_discard {x : Exec α} {Q : α → Vm → Prop} (hx : Yields x vm Q) :
    Proceeds (do let _ ← x; return () : Exec Unit) vm :=
  hx.bind fun hleads _ => yields_pure hleads.whole trivial

theorem yields_runProgram (fuel : Nat) (className : String) (h : vm.Whole) :
    Yields (runProgram fuel className) vm Admitted := by
  refine yields_bind h fun {id _} hleads => yields_bind hleads.whole fun {c _} hleads' => ?_
  cases entryPoint? c with
  | none => exact yields_fault _ hleads'.whole
  | some m =>
      dsimp only
      split
      · refine yields_bind hleads'.whole fun {string _} hleads'' => ?_
        refine (yields_arrayOf string hleads''.whole).bind fun {array _} hleads₃ hid => ?_
        refine (yields_allocArray 0 hleads₃.whole hid).bind fun {r _} hleads₄ hr => ?_
        exact yields_invokeMethod fuel m hleads₄.whole (by simpa using hr)
      · exact yields_invokeMethod fuel m hleads'.whole nofun

theorem yields_answer {call : HostCall} (h : vm.Whole) (hcall : call.Admissible vm) :
    Proceeds (answer call) vm := by
  cases call with
  | request fuel q =>
      cases q with
      | load className => exact yields_discard (yields_loadClass className h)
      | prepare id => exact yields_of_guards (x := initialized fuel id) h
      | invoke m args => exact yields_discard (yields_invokeMethod fuel m h hcall)
      | invokeStatic className name descriptor args =>
          refine yields_discard (Q := Admitted) (yields_bind h fun {id _} hleads => ?_)
          refine yields_bind hleads.whole fun {s _} hleads' => ?_
          cases s.registry.classes.findMethod? id name descriptor with
          | none => exact yields_fault _ hleads'.whole
          | some m =>
              dsimp only
              split
              · exact yields_invokeMethod fuel m hleads'.whole fun v hv =>
                  Admitted.mono (hcall v hv) (hleads.trans hleads')
              · exact yields_fault _ hleads'.whole
      | run className => exact yields_discard (yields_runProgram fuel className h)
      | getStatic className name =>
          refine yields_discard (Q := fun _ _ => True) (yields_bind h fun {id _} hleads => ?_)
          refine yields_bind hleads.whole fun {s _} hleads' => ?_
          split
          · exact yields_fault _ hleads'.whole
          · refine yields_bind hleads'.whole fun hleads'' => ?_
            exact (yields_getStaticSlot _ hleads''.whole).imp fun _ _ => trivial
      | newString text => exact yields_discard (yields_newString text h)
  | arrayOf id => exact yields_discard (yields_arrayOf id h)
  | resolve use id index =>
      have hresolve : Guards (resolveEntry id index use) := by
        cases use <;> unfold resolveEntry <;> infer_instance
      exact yields_of_guards (x := resolveEntry id index use) h
  | intern text => exact yields_discard (yields_intern text h)
  | newObject id => exact yields_discard (yields_allocInstance id h)
  | newArray id length => exact yields_discard (yields_allocArray length h hcall)
  | storeElement r index v => exact yields_storeElement r index h hcall
  | setField r declaring name v => exact yields_setField r declaring name h hcall

end Exec

/-! ## The law -/

/-- What moves a machine on: a call of the host, the start of a run or of an initialization,
or one round.  Runs inside it may be left at their start. -/
inductive Vm.Move (vm : Vm) : Vm → Prop
  | answer (call : HostCall) (hcall : call.Admissible vm) :
      Move vm (Exec.after (Exec.answer call) vm)
  | execute {r : Nat → Exec Value} {fuel : Nat} (hr : Interrupts r (Exec.run fuel)) (m : Method)
      {args : List Value} (hargs : ∀ v ∈ args, vm.heap.Admits v) :
      Move vm (Exec.after (Exec.executeBy r m args) vm)
  | prepare {r : Nat → Exec Value} {fuel : Nat} (hr : Interrupts r (Exec.run fuel))
      (id : ClassId) : Move vm (Exec.after (Exec.initializeBy r id) vm)
  | round {r : Nat → Exec Value} {fuel : Nat} (hr : Interrupts r (Exec.run fuel)) (base : Nat) :
      Move vm (Exec.after (Exec.contain base (Exec.advance (Exec.initializeBy r) base)) vm)

abbrev Vm.Moves : Vm → Vm → Prop := Relation.ReflTransGen Vm.Move

namespace Vm

variable {vm vm' : Vm}

theorem Move.leads (hmove : vm.Move vm') (h : vm.Whole) : vm.Leads vm' := by
  cases hmove with
  | answer call hcall => exact (Exec.yields_answer h hcall).leads
  | execute hr m hargs => exact (Exec.yields_executeBy (Exec.gives_interrupted hr) m h hargs).leads
  | prepare hr id => exact (Exec.guards_initializeBy (Exec.gives_interrupted hr) id).leads h
  | @round r _ hr base =>
      have hprepare (id : ClassId) : Exec.Guards (Exec.initializeBy r id) :=
        Exec.guards_initializeBy (Exec.gives_interrupted hr) id
      exact ((Exec.yields_advance base h).contain base).leads

theorem Moves.leads (hmoves : vm.Moves vm') (h : vm.Whole) : vm.Leads vm' := by
  induction hmoves with
  | refl => exact .refl h
  | tail _ hmove ih => exact ih.trans (hmove.leads ih.whole)

theorem whole_start (source? : Option Search.Source) (maxFrames : Int)
    (profiler? : Option (Profiler MethodId)) : (start source? maxFrames profiler?).Whole where
  frames := nofun
  result := Heap.admits_of_harmless _ .top
  registry := Registry.holds_empty
  closed := ⟨fun h => by simp [start] at h, fun h => by simp [start] at h⟩
  fits _ _ h := by simp [start] at h
  coherent := Registry.coherent_empty _

end Vm

/-- A new machine stays intact, whatever moves it on, and its objects stay in their places with
their classes and their numbers of fields and elements. -/
theorem references_sound (source? : Option Search.Source) (maxFrames : Int)
    (profiler? : Option (Profiler MethodId)) {vm vm' : Vm}
    (h : (Vm.start source? maxFrames profiler?).Moves vm) (hlater : vm.Moves vm') :
    vm.Intact ∧ vm'.Intact ∧ vm.heap.Persists vm'.heap := by
  have hleads := h.leads (Vm.whole_start source? maxFrames profiler?)
  have hleads' := hlater.leads hleads.whole
  exact ⟨hleads.whole.toIntact, hleads'.whole.toIntact, hleads'.heap⟩

/-! ## An array that holds itself -/

namespace SelfHolding

def files : Search.Memory := ⟨[(ClassFile.rootClassName, .ok PlainRoot.file)]⟩

def vm : Vm := Vm.start (some files.source) 0 none

def arrayName : String := "[Ljava/lang/Object;"

def objects : Class := linkArray #[PlainRoot.root] arrayName 0 ⟨'L', some 0⟩

def withObjects : Registry := (PlainRoot.registry.add objects .initialized #[]).2

def loaded : Vm := { vm with registry := withObjects }

def holdingAt (v : Value) : Vm :=
  { loaded with heap := { objects := #[{ classId := 1, elements := #[v] }] } }

def raiser : Method :=
  ⟨⟨0, 0⟩, ClassFile.rootClassName, 0x0021, "raise", "()V", 0x0008, ⟨[], none, "()V"⟩,
    some ⟨1, 0, #[0x04, 0xbf], [], []⟩⟩

theorem load_objects : load vm.source [] arrayName {} = (.ok 1, withObjects) := by
  have hgather : gather (load vm.source [arrayName]) arrayName
      [⟨.part, ClassFile.rootClassName⟩, ⟨.part, ClassFile.rootClassName⟩] {} =
        (.ok [0, 0], PlainRoot.registry) :=
    Registry.gather_cons (PlainRoot.load_root rfl (by decide)) (by decide)
      (Registry.gather_cons (Registry.load_of_found PlainRoot.find?_registry) (by decide) rfl)
  exact Registry.load_of_gathered PlainRoot.registry objects (by with_unfolding_all decide)
    (by decide)
    (by decide) (by decide) hgather (by decide)

theorem moves_holdingAt : vm.Moves (holdingAt (.ref ⟨1⟩)) := by
  have hload : Exec.after (Exec.answer (.request 0 (.load arrayName))) vm = loaded :=
    Exec.after_ok (Exec.answer_load 0 load_objects)
  have hnew : Exec.after (Exec.answer (.newArray 1 1)) loaded = holdingAt .null := rfl
  have hstore : Exec.after (Exec.answer (.storeElement ⟨1⟩ 0 (.ref ⟨1⟩))) (holdingAt .null) =
      holdingAt (.ref ⟨1⟩) := rfl
  have hfirst : vm.Move _ := .answer (.request 0 (.load arrayName)) trivial
  have hsecond : loaded.Move _ := .answer (.newArray 1 1) ⟨objects, rfl, rfl⟩
  have hadmits : (holdingAt .null).heap.Admits (.ref ⟨1⟩) := Heap.admits_of_get? rfl
  have hthird : (holdingAt .null).Move _ := .answer (.storeElement ⟨1⟩ 0 (.ref ⟨1⟩)) hadmits
  rw [hload] at hfirst
  rw [hnew] at hsecond
  rw [hstore] at hthird
  exact ((Relation.ReflTransGen.single hfirst).tail hsecond).tail hthird

/-- The array survives code that throws what is no reference. -/
theorem references_sound_raiser :
    let vm' := Exec.after (Exec.execute 4 raiser []) (holdingAt (.ref ⟨1⟩))
    vm.Moves (holdingAt (.ref ⟨1⟩)) ∧ (holdingAt (.ref ⟨1⟩)).Moves vm' ∧
      (holdingAt (.ref ⟨1⟩)).Intact ∧ vm'.Intact ∧
        (holdingAt (.ref ⟨1⟩)).heap.Persists vm'.heap := by
  intro vm'
  have hmove : (holdingAt (.ref ⟨1⟩)).Moves vm' :=
    .single (Vm.Move.execute (r := Exec.run 4) (fun _ _ => .inl rfl) raiser nofun)
  exact ⟨moves_holdingAt, hmove, references_sound _ _ _ moves_holdingAt hmove⟩

end SelfHolding

end ClassEngine.Machine
