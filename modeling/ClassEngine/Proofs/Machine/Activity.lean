import ClassEngine.Proofs.Machine.Stores

/-!
# The activity of a machine

Whatever the code, instructions, rounds, runs and the calls of a host store something or nothing,
however they end.  So all of them are made of single deeds.
-/

namespace ClassEngine.Machine

open Code

namespace Exec

variable {α β : Type}

/-- The operation stores only what is in `p`. -/
class Storing (p : Write → Prop) (x : Exec α) : Prop where
  stores : ∀ vm, ∃ ws, (∀ w ∈ ws, p w) ∧ Stores x vm ws

variable {p : Write → Prop}

instance (priority := low) {x : Exec α} [hx : Quiet x] : Storing p x :=
  ⟨fun vm => ⟨[], nofun, .quiet hx vm⟩⟩

theorem Storing.settle {x : Exec α} {rest : Except Stop α → Exec β} [hx : Storing p x]
    (hrest : ∀ end?, Storing p (rest end?)) : Storing p (Exec.settle x rest) := by
  constructor
  intro vm
  obtain ⟨ws, hws, hfirst⟩ := hx.stores vm
  obtain ⟨later, hlater, hnext⟩ := (hrest (outcome x vm)).stores (after x vm)
  exact ⟨ws ++ later, List.forall_mem_append.mpr ⟨hws, hlater⟩, hfirst.settle hnext⟩

theorem storing_bind {x : Exec α} {g : α → Exec β} [Storing p x] (hg : ∀ a, Storing p (g a)) :
    Storing p (x >>= g) := by
  rw [bind_eq_settle]
  refine .settle fun end? => ?_
  cases end? with
  | ok a => exact hg a
  | error stop => infer_instance

instance {x : Exec α} {g : α → Exec β} [Storing p x] [∀ a, Storing p (g a)] :
    Storing p (x >>= g) :=
  storing_bind inferInstance

instance {c : Prop} [Decidable c] {x y : Exec α} [hx : Storing p x] [hy : Storing p y] :
    Storing p (if c then x else y) := by
  split
  · exact hx
  · exact hy

instance {x : Exec α} [Storing p x] : Storing p (attempt x) := by
  rw [attempt_eq_settle]
  refine .settle fun end? => ?_
  cases end? with
  | ok a => infer_instance
  | error stop => cases stop <;> dsimp only <;> infer_instance

section

variable {prepare : ClassId → Exec Unit} [hprepare : ∀ id, Storing p (prepare id)]

instance : Storing p (staticField prepare) := by
  unfold staticField
  infer_instance

instance (op : ObjectOp) : Storing p (object prepare op) := by
  cases op with
  | create =>
      refine storing_bind fun index => storing_bind fun owner => storing_bind fun id => ?_
      refine storing_bind fun c => ?_
      dsimp only
      infer_instance
  | _ =>
      unfold object
      infer_instance

instance (op : InvokeOp) : Storing p (invoke prepare op) := by
  cases op with
  | interface =>
      refine storing_bind fun index => storing_bind fun _ => storing_bind fun _ => ?_
      infer_instance
  | _ =>
      unfold invoke
      infer_instance

theorem storing_perform {op : Operation} (hstore : op ≠ .array .store)
    (hstoreRef : op ≠ .array .storeRef) : Storing p (perform prepare op) := by
  cases op with
  | array op =>
      have harray : Quiet (array op) :=
        quiet_array (fun h => hstore (h ▸ rfl)) fun h => hstoreRef (h ▸ rfl)
      exact inferInstanceAs (Storing p (array op))
  | _ =>
      unfold perform
      infer_instance

variable (prepare) in
/-- An instruction that stores no element stores only what initializations do. -/
theorem exists_stores_of_other {vm : Vm} {f : Frame} {below : List Frame} {byte : UInt8}
    (hframes : vm.frames = f :: below) (hbyte : f.body.code[f.pc]? = some byte)
    (hother : storesElement byte = false) :
    ∃ ws, (∀ w ∈ ws, p w) ∧ Stores (step prepare) vm ws := by
  have hbegin : Stores (onFrame .beginInstruction) vm [] := .quiet inferInstance vm
  have hfetch : Stores (onFrame .u8)
      { vm with frames := { f with opPc := f.pc } :: below } [] := .quiet inferInstance _
  have hno := storesElement_iff.not.mp (hother ▸ Bool.false_ne_true)
  cases hop : (⟨byte⟩ : Opcode).operation? with
  | none =>
      refine ⟨[], nofun, ?_⟩
      unfold step
      refine hbegin.bind_ok (begin_apply hframes) (hfetch.bind_ok (opcode_apply hbyte) ?_)
      simp only [hop]
      exact .quiet inferInstance _
  | some op =>
      rw [hop, Option.some.injEq, Option.some.injEq, not_or] at hno
      have hperform : Storing p (perform prepare op) := storing_perform hno.1 hno.2
      obtain ⟨ws, hws, hwork⟩ := hperform.stores (fetched vm f below)
      refine ⟨ws, hws, ?_⟩
      unfold step
      refine hbegin.bind_ok (begin_apply hframes) (hfetch.bind_ok (opcode_apply hbyte) ?_)
      simp only [hop]
      exact hwork

instance (className message : String) : Storing p (newThrowable prepare className message) := by
  unfold newThrowable
  infer_instance

instance (base : Nat) (e : Fault) : Storing p (raiseFault prepare base e) := by
  unfold raiseFault
  cases e.guestException? with
  | none =>
      dsimp only
      infer_instance
  | some exception =>
      refine storing_bind fun outcome => ?_
      cases outcome <;> dsimp only <;> infer_instance

end

/-! ## Rounds -/

instance (base : Nat) (x : Exec Unit) [Storing p x] : Storing p (unlessReturning base x) := by
  unfold unlessReturning
  infer_instance

section

variable {prepare : ClassId → Exec Unit} [∀ id, Storing (fun _ => True) (prepare id)]

instance : Storing (fun _ => True) (step prepare) := by
  constructor
  intro vm
  have hbegin : Stores (onFrame .beginInstruction) vm [] := .quiet inferInstance vm
  cases hframes : vm.frames with
  | nil => exact ⟨[], nofun, hbegin.bind_error (onFrame_of_idle _ hframes)⟩
  | cons f below =>
      cases hbyte : f.body.code[f.pc]? with
      | none =>
          have hfetch : Stores (onFrame .u8)
              { vm with frames := { f with opPc := f.pc } :: below } [] := .quiet inferInstance _
          exact ⟨[], nofun, hbegin.bind_ok (begin_apply hframes)
            (hfetch.bind_error (opcode_out_of_code hbyte))⟩
      | some byte =>
          cases hstores : storesElement byte with
          | false => exact exists_stores_of_other prepare hframes hbyte hstores
          | true =>
              cases hstep : step prepare vm with
              | ok _ vm' =>
                  obtain ⟨v, index, r, rest, hstack, -⟩ :=
                    exists_of_completed hframes hbyte hstores hstep
                  exact ⟨_, fun _ _ => trivial, .completed hframes hbyte hstores hstack hstep⟩
              | error stop vm' => exact ⟨[], nofun, .refused hframes hbyte hstores hstep⟩

instance : Storing (fun _ => True) (round prepare) := by
  unfold round advance.countInstruction
  infer_instance

instance (base : Nat) : Storing (fun _ => True) (advance prepare base) := by
  rw [advance_eq_settle]
  refine .settle fun end? => ?_
  cases end? with
  | ok _ => infer_instance
  | error stop => cases stop <;> dsimp only <;> infer_instance

end

instance (base : Nat) {x : Exec α} [Storing p x] : Storing p (contain base x) := by
  rw [contain_eq_settle]
  refine .settle fun end? => ?_
  cases end? with
  | ok a => infer_instance
  | error stop => cases stop <;> dsimp only <;> infer_instance

/-! ## Initialization -/

section

variable {runInitializer : Method → Exec Unit} [∀ m, Storing p (runInitializer m)]

theorem storing_initializeOwn (c : Class) : Storing p (initializeOwn runInitializer c) := by
  refine storing_bind fun _ => ?_
  cases c.declaredMethod? ClassFile.initializerName "()V" with
  | none => infer_instance
  | some m =>
      refine storing_bind fun _ => storing_bind fun outcome => ?_
      cases outcome <;> dsimp only <;> infer_instance

instance (id : ClassId) {x : Exec Unit} [Storing p x] : Storing p (failing id x) := by
  refine storing_bind fun outcome => ?_
  cases outcome <;> dsimp only <;> infer_instance

theorem sequential_storing : Sequential (Storing p) where
  pure _ := inferInstance
  bind _ hg := storing_bind hg

theorem storing_ensureInitialized (id : ClassId) :
    Storing p (ensureInitialized runInitializer id) :=
  sequential_storing.ensureInitialized (fun _ => inferInstance) (fun _ => inferInstance)
    (fun _ => inferInstance) (fun _ _ => inferInstance) storing_initializeOwn
    (fun _ _ _ => inferInstance) id

end

/-! ## Runs -/

instance {x : Exec α} [Storing p x] : Storing p (releaseTraces (noteEnd x)) := by
  rw [releaseTraces_noteEnd_eq_settle]
  refine .settle fun end? => ?_
  cases end? with
  | ok a => infer_instance
  | error stop => cases stop <;> dsimp only <;> infer_instance

section

variable {run : Nat → Exec Value} [∀ base, Storing p (run base)]

theorem storing_executeBy (m : Method) (args : List Value) : Storing p (executeBy run m args) := by
  unfold executeBy
  cases m.body? with
  | none =>
      dsimp only
      infer_instance
  | some body =>
      dsimp only
      cases bindArguments m body args with
      | error d =>
          dsimp only
          infer_instance
      | ok locals =>
          have hrun : Storing p (do
              let base := (← get).frames.length
              enter (.enter m body locals)
              releaseTraces (noteEnd (run base)) : Exec Value) := inferInstance
          dsimp only
          infer_instance

theorem storing_initializeBy (id : ClassId) : Storing p (initializeBy run id) := by
  have hexecute (m : Method) : Storing p (executeBy run m []) := storing_executeBy m []
  exact storing_ensureInitialized id

end

instance storing_run (fuel base : Nat) : Storing (fun _ => True) (run fuel base) := by
  induction fuel generalizing base with
  | zero => exact inferInstanceAs (Storing (fun _ => True) (throw .exhausted : Exec Value))
  | succ fuel ih =>
      have hprepare (id : ClassId) : Storing (fun _ => True) (initializeBy (run fuel) id) :=
        storing_initializeBy id
      refine storing_bind fun v? => ?_
      cases v? <;> dsimp only <;> infer_instance

theorem storing_interrupted {r : Nat → Exec Value} {fuel : Nat} (hr : Interrupts r (run fuel))
    (base : Nat) : Storing (fun _ => True) (r base) := by
  constructor
  intro vm
  rcases hr base vm with h | h
  · obtain ⟨ws, hws, hrun⟩ := (storing_run fuel base).stores vm
    exact ⟨ws, hws, .congr h hrun⟩
  · have hquiet : Quiet (throw .exhausted : Exec Value) := inferInstance
    exact ⟨[], nofun, .congr h (.quiet hquiet vm)⟩

/-! ## Requests -/

instance (fuel : Nat) (id : ClassId) : Storing (fun _ => True) (initialized fuel id) :=
  storing_initializeBy id

instance (fuel : Nat) (m : Method) (args : List Value) :
    Storing (fun _ => True) (execute fuel m args) :=
  storing_executeBy m args

instance (fuel : Nat) (m : Method) (args : List Value) :
    Storing (fun _ => True) (invokeMethod fuel m args) := by
  unfold invokeMethod
  infer_instance

instance (fuel : Nat) (className : String) :
    Storing (fun _ => True) (runProgram fuel className) := by
  refine storing_bind fun id => storing_bind fun c => ?_
  cases entryPoint? c <;> dsimp only <;> infer_instance

instance (fuel : Nat) (className name descriptor : String) (args : List Value) :
    Storing (fun _ => True) (invokeStatic fuel className name descriptor args) := by
  refine storing_bind fun id => storing_bind fun vm => ?_
  cases vm.registry.classes.findMethod? id name descriptor <;> dsimp only <;> infer_instance

instance (fuel : Nat) (className name : String) :
    Storing (fun _ => True) (getStatic fuel className name) := by
  refine storing_bind fun id => storing_bind fun vm => ?_
  split <;> infer_instance

instance (fuel : Nat) (q : Request) : Storing (fun _ => True) (serve fuel q) := by
  cases q <;> unfold serve <;> infer_instance

instance (id : ClassId) (index : UInt16) (use : PoolUse) : Quiet (resolveEntry id index use) := by
  cases use <;> unfold resolveEntry <;> infer_instance

/-- What a machine does for its host: all but the stores that are the host's own. -/
inductive Works : {α : Type} → Exec α → Prop
  | answer {call : HostCall} (hcall : ∀ r index v, call ≠ .storeElement r index v) :
      Works (answer call)
  | execute {r : Nat → Exec Value} {fuel : Nat} (hr : Interrupts r (run fuel)) (m : Method)
      (args : List Value) : Works (executeBy r m args)
  | prepare {r : Nat → Exec Value} {fuel : Nat} (hr : Interrupts r (run fuel)) (id : ClassId) :
      Works (initializeBy r id)
  | round {r : Nat → Exec Value} {fuel : Nat} (hr : Interrupts r (run fuel)) (base : Nat) :
      Works (contain base (advance (initializeBy r) base))

theorem Works.storing {x : Exec α} (h : Works x) : Storing (fun _ => True) x := by
  cases h with
  | @answer call hcall =>
      cases call with
      | storeElement r index v => exact absurd rfl (hcall r index v)
      | _ => unfold Exec.answer; infer_instance
  | execute hr m args =>
      have hrun := storing_interrupted hr
      exact storing_executeBy m args
  | prepare hr id =>
      have hrun := storing_interrupted hr
      exact storing_initializeBy id
  | @round r _ hr base =>
      have hrun := storing_interrupted hr
      have hprepare (id : ClassId) : Storing (fun _ => True) (initializeBy r id) :=
        storing_initializeBy id
      infer_instance

theorem Storing.fineDeeds {x : Exec α} (hx : Storing p x) (vm : Vm) : FineDeeds vm (after x vm) :=
  let ⟨_, _, h⟩ := hx.stores vm
  h.trail.fineDeeds

end Exec

/-! ## Acts -/

/-- What moves a machine on: a call of the host, the start of a run or of an initialization,
or one round.  Runs inside it may be left at their start. -/
inductive Vm.Act (vm : Vm) : Vm → Prop
  | answer (call : HostCall) : Act vm (Exec.after (Exec.answer call) vm)
  | execute {r : Nat → Exec Value} {fuel : Nat} (hr : Interrupts r (Exec.run fuel)) (m : Method)
      (args : List Value) : Act vm (Exec.after (Exec.executeBy r m args) vm)
  | prepare {r : Nat → Exec Value} {fuel : Nat} (hr : Interrupts r (Exec.run fuel))
      (id : ClassId) : Act vm (Exec.after (Exec.initializeBy r id) vm)
  | round {r : Nat → Exec Value} {fuel : Nat} (hr : Interrupts r (Exec.run fuel)) (base : Nat) :
      Act vm (Exec.after (Exec.contain base (Exec.advance (Exec.initializeBy r) base)) vm)

abbrev Vm.Acts : Vm → Vm → Prop := Relation.ReflTransGen Vm.Act

section

variable {vm vm' : Vm}

theorem Vm.Acts.answer {call : HostCall} {vm₁ : Vm} (hacts : vm.Acts vm₁)
    (hok : Exec.answer call vm₁ = .ok () vm') : vm.Acts vm' :=
  hacts.tail (Exec.after_ok hok ▸ .answer call)

theorem Vm.Acts.execute {m : Method} {args : List Value} {fuel : Nat} {stop : Stop} {vm₁ : Vm}
    (hacts : vm.Acts vm₁)
    (hrun : Exec.executeBy (Exec.run fuel) m args vm₁ = .error stop vm') : vm.Acts vm' :=
  hacts.tail (Exec.after_error hrun ▸ .execute (fun _ _ => .inl rfl) m args)

theorem Vm.Act.reachable (hact : vm.Act vm') (h : vm.Reachable) : vm'.Reachable := by
  cases hact with
  | answer call => exact .answer h call
  | execute hr m args => exact .execute h hr m args
  | prepare hr id => exact .prepare h hr id
  | round hr base => exact .round h hr base

theorem Vm.Acts.reachable (hacts : vm.Acts vm') (h : vm.Reachable) : vm'.Reachable := by
  induction hacts with
  | refl => exact h
  | tail _ hact ih => exact hact.reachable ih

theorem Vm.Act.works (hact : vm.Act vm') :
    (∃ (α : Type) (x : Exec α), x.Works ∧ vm' = Exec.after x vm) ∨
      ∃ r index v, vm' = Exec.after (Exec.storeElement r index v) vm := by
  cases hact with
  | answer call =>
      by_cases hcall : ∃ r index v, call = .storeElement r index v
      · obtain ⟨r, index, v, rfl⟩ := hcall
        exact .inr ⟨r, index, v, rfl⟩
      · refine .inl ⟨_, _, .answer fun r index v h => hcall ⟨r, index, v, h⟩, rfl⟩
  | execute hr m args => exact .inl ⟨_, _, .execute hr m args, rfl⟩
  | prepare hr id => exact .inl ⟨_, _, .prepare hr id, rfl⟩
  | round hr base => exact .inl ⟨_, _, .round hr base, rfl⟩

theorem Vm.Act.fineDeeds (hact : vm.Act vm') : FineDeeds vm vm' := by
  obtain ⟨_, x, hx, rfl⟩ | ⟨r, index, v, rfl⟩ := hact.works
  · exact hx.storing.fineDeeds vm
  · cases h : Exec.storeElement r index v vm with
    | ok _ vm' =>
        rw [Exec.after_ok h]
        obtain ⟨heap, hstore, rfl⟩ := Exec.storeElement_eq_ok h
        exact .single (.store (w := ⟨r, index, v⟩) vm hstore)
    | error stop vm' =>
        rw [Exec.after_error h, Exec.storeElement_eq_error h]

theorem Vm.Acts.fineDeeds (hacts : vm.Acts vm') : FineDeeds vm vm' := by
  induction hacts with
  | refl => exact .refl
  | tail _ hact ih => exact ih.trans hact.fineDeeds

theorem Vm.Acts.deeds (hacts : vm.Acts vm') : Deeds vm vm' := hacts.fineDeeds.deeds

/-- What happens in a machine: a whole act, or one of the deeds of which acts are made. -/
inductive Vm.Happens (vm : Vm) : Vm → Prop
  | act {vm' : Vm} (h : vm.Act vm') : Happens vm vm'
  | deed {vm' : Vm} (h : Deed vm vm') : Happens vm vm'

abbrev Vm.Activity : Vm → Vm → Prop := Relation.ReflTransGen Vm.Happens

theorem Vm.Activity.deeds (h : vm.Activity vm') : Deeds vm vm' := by
  induction h with
  | refl => exact .refl
  | tail _ hhappens ih =>
      cases hhappens with
      | act hact => exact ih.trans hact.fineDeeds.deeds
      | deed hdeed => exact ih.tail hdeed

end

/-! ## What all activity keeps -/

section

variable {a b : Vm}

/-- A property of machines that every deed keeps holds after any number of them. -/
theorem Deeds.keep {I : Vm → Prop} (hI : ∀ {a b : Vm}, Deed a b → I a → I b) (h : Deeds a b)
    (ha : I a) : I b := by
  induction h with
  | refl => exact ha
  | tail _ hdeed ih => exact hI hdeed ih

theorem keepsRegistry_of_deed (h : Deed a b) : keepsRegistry a none b := by
  cases h with
  | aside source registry =>
      unfold keepsRegistry
      rw [source, registry]
      exact keepsRegistry_refl none a
  | objects | intern => exact keepsRegistry_of_change (.heap a _)
  | load name => exact keepsRegistry_of_change (.load a name)
  | status id resolutions =>
      refine ⟨rfl, Registry.grows_modifyStatus _ _ _ fun s _ => ?_, fun h => h.modifyStatus _ _⟩
      exact ⟨congrArg Array.size (resolutions s).symm, fun hr => resolutions s ▸ hr⟩
  | keep id index r unresolved sound =>
      exact keepsRegistry_of_change (.keep a id index r unresolved sound)

theorem keepsRegistry_of_deeds (h : Deeds a b) : keepsRegistry a none b :=
  Deeds.keep (I := keepsRegistry a none)
    (fun hdeed ih => keepsRegistry_trans ih (keepsRegistry_of_deed hdeed)) h
    (keepsRegistry_refl none a)

theorem grows_of_deeds (h : Deeds a b) : a.registry.Grows b.registry :=
  (keepsRegistry_of_deeds h).2.1

theorem coherent_of_deeds (h : Deeds a b) (ha : a.registry.Coherent a.source) :
    b.registry.Coherent b.source :=
  (keepsRegistry_of_deeds h).2.2 ha

theorem wellFormed_of_deed (h : Deed a b) (ha : a.registry.WellFormed) :
    b.registry.WellFormed := by
  cases h with
  | aside source registry =>
      rw [registry]
      exact ha
  | objects | intern => exact ha
  | load name => exact wellFormed_of_change (.load a name) ha
  | status id resolutions =>
      refine Registry.wellFormed_modifyStatus ha _ _ fun s hs i r hr => ?_
      rw [resolutions] at hr
      exact ha.kept hs hr
  | keep id index r unresolved sound =>
      exact wellFormed_of_change (.keep a id index r unresolved sound) ha

theorem wellFormed_of_deeds (h : Deeds a b) (ha : a.registry.WellFormed) :
    b.registry.WellFormed :=
  Deeds.keep (I := fun vm => vm.registry.WellFormed) wellFormed_of_deed h ha

theorem interns_of_deed {text : String} {r : Ref} (h : Deed a b) (hr : a.heap.Interns text r) :
    b.heap.Interns text r := by
  cases h with
  | aside source registry heap =>
      rw [heap]
      exact hr
  | objects interned =>
      obtain ⟨key, hfind⟩ := hr
      exact ⟨key, interned ▸ hfind⟩
  | intern id c other => exact hr.intern id c other
  | load | status | keep => exact hr

theorem interns_of_deeds {text : String} {r : Ref} (h : Deeds a b) (hr : a.heap.Interns text r) :
    b.heap.Interns text r :=
  Deeds.keep (I := fun vm => vm.heap.Interns text r) interns_of_deed h hr

end

/-! ## Methods that are kept -/

theorem Classes.Declares.continues {cs cs' : Classes} {m : Method} (hm : cs.Declares m)
    (h : cs.Continues cs') : cs'.Declares m :=
  let ⟨id, c, hc, hmem⟩ := hm
  ⟨id, c, h id c hc, hmem⟩

theorem Classes.Finds.continues {cs cs' : Classes} {outcome : Except Fault Resolved}
    (h : cs.Finds outcome) (hcs : cs.Continues cs') : cs'.Finds outcome :=
  fun m hm => (h m hm).continues hcs

theorem Classes.lasting_finds : Registry.Lasting fun cs _ _ outcome => cs.Finds outcome :=
  fun _ _ hcs _ _ _ h => h.continues hcs

def Registry.Declaring (reg : Registry) : Prop :=
  ∀ ⦃id : ClassId⦄ ⦃s : ClassStatus⦄ ⦃i : Nat⦄ ⦃r : Resolution⦄, reg.status? id = some s →
    s.resolutions[i]? = some (some r) → reg.classes.Finds r.outcome

theorem declaring_of_deed {a b : Vm} (h : Deed a b) (ha : a.registry.Declaring) :
    b.registry.Declaring := by
  have hkept : a.registry.Keeping fun cs _ _ outcome => cs.Finds outcome := ha
  cases h with
  | aside source registry =>
      rw [registry]
      exact ha
  | objects | intern => exact ha
  | load name => exact hkept.load Classes.lasting_finds name
  | status id resolutions =>
      refine hkept.modifyStatus id fun s i r hr => .inl ?_
      rwa [resolutions] at hr
  | keep id index r unresolved sound found => exact hkept.keep id index.toNat found

theorem declaring_of_deeds {a b : Vm} (h : Deeds a b) (ha : a.registry.Declaring) :
    b.registry.Declaring :=
  Deeds.keep (I := fun vm => vm.registry.Declaring) declaring_of_deed h ha

theorem Vm.declaring_start (source? : Option Search.Source) (maxFrames : Int)
    (profiler? : Option (Profiler MethodId)) :
    (Vm.start source? maxFrames profiler?).registry.Declaring := by
  intro id s i r hs
  simp [Vm.start, Registry.status?] at hs

end ClassEngine.Machine
