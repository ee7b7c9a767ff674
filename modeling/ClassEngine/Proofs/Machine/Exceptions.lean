import ClassEngine.Machine.Exceptions
import ClassEngine.Proofs.Machine.Initialization

/-!
# Effects of exceptions

The search for a handler and the creation of an exception object are made of single
changes, the initialization of the exception's class apart.
-/

namespace ClassEngine.Machine

open ClassFile (Handler)

namespace Exec

/-- The operation is local, and no fault ends it. -/
abbrev Searches {α : Type} (x : Exec α) : Prop := Has quietChanges.faultless x

variable {α β : Type}

theorem Searches.bind {x : Exec α} {f : α → Exec β} (hx : Searches x)
    (hf : ∀ a, Searches (f a)) : Searches (x >>= f) :=
  Has.bind_of_trans (fun h h' => ⟨steady_quietChanges.trans h.1 h'.1, h'.2⟩) hx hf

theorem Looks.searches {x : Exec α} (hx : Looks x) : Searches x :=
  fun vm => ⟨hx.reads.isLocal vm, (hx vm).2⟩

theorem searches_pure (a : α) : Searches (pure a : Exec α) := (looks_pure a).searches

theorem searches_get : Searches (get : Exec Vm) := looks_get.searches

theorem searches_attempt {x : Exec α} (hx : Local x) : Searches (attempt x) :=
  Has.attempt hx quietChanges_none

theorem searches_classOfObject (r : Ref) : Searches (classOfObject r) :=
  (looks_classOfObject r).searches

theorem searches_push (v : Value) : Searches (onFrame (.push v)) := by
  refine fun vm => ⟨local_onFrame _ vm, fun e he => ?_⟩
  unfold stop? at he
  cases hframes : vm.frames with
  | nil =>
      simp only [onFrame, hframes] at he
      cases he
  | cons f below =>
      rw [onFrame_push_apply v hframes] at he
      by_cases hroom : f.stack.length < f.maxStack
      · simp only [hroom, if_true] at he
        cases he
      · simp only [hroom, if_false] at he
        cases he

theorem recordTrace_apply (r : Ref) (vm : Vm) :
    ∃ traces, recordTrace r vm = .ok () { vm with traces } := by
  by_cases hknown : vm.traces.any (·.1 = r)
  · exact ⟨vm.traces, congrArg (EStateM.Result.ok ()) (if_pos hknown)⟩
  · exact ⟨_, congrArg (EStateM.Result.ok ()) (if_neg hknown)⟩

theorem searches_accepts (f : Frame) (thrown : ClassId) (h : Handler) :
    Searches (accepts f thrown h) := by
  unfold accepts
  split
  · exact searches_pure _
  · refine (searches_attempt (local_resolveClass _ _)).bind fun outcome => ?_
    cases outcome with
    | ok target => exact searches_get.bind fun _ => searches_pure _
    | error e => exact searches_pure _

section

variable {P : ∀ {α : Type}, Exec α → Prop}

theorem Sequential.findHandler (hP : Sequential P) {f : Frame} {thrown : ClassId}
    (haccepts : ∀ h, P (accepts f thrown h)) (rows : List Handler) :
    P (findHandler f thrown rows) := by
  induction rows with
  | nil => exact hP.pure _
  | cons h rest ih =>
      unfold Exec.findHandler
      split
      · refine hP.bind (haccepts h) fun accepted => ?_
        split
        · exact hP.pure _
        · exact ih
      · exact ih

theorem Sequential.seekHandler (hP : Sequential P) (base : Nat) {thrown : ClassId}
    (haccepts : ∀ f h, P (accepts f thrown h)) (frames : List Frame) :
    P (seekHandler base thrown frames) := by
  induction frames with
  | nil => exact hP.pure _
  | cons f below ih =>
      unfold Exec.seekHandler
      split
      · exact hP.pure _
      · refine hP.bind (hP.findHandler (haccepts f) _) fun pc? => ?_
        cases pc? with
        | some pc => exact hP.pure _
        | none => exact ih

end

theorem sequential_searches : Sequential Searches := ⟨searches_pure, Searches.bind⟩

theorem searches_findHandler (f : Frame) (thrown : ClassId) (rows : List Handler) :
    Searches (findHandler f thrown rows) :=
  sequential_searches.findHandler (searches_accepts f thrown) rows

theorem searches_seekHandler (base : Nat) (thrown : ClassId) (frames : List Frame) :
    Searches (seekHandler base thrown frames) :=
  sequential_searches.seekHandler base (searches_accepts · thrown) frames

theorem findHandler_some {f : Frame} {thrown : ClassId} {rows : List Handler} {pc : Nat}
    {vm vm' : Vm} (h : findHandler f thrown rows vm = .ok (some pc) vm') :
    ∃ row ∈ rows, pc = row.target.toNat := by
  induction rows generalizing vm with
  | nil => cases h
  | cons row rest ih =>
      have hrest {vm : Vm} (h : findHandler f thrown rest vm = .ok (some pc) vm') :
          ∃ row' ∈ row :: rest, pc = row'.target.toNat := by
        obtain ⟨row', hrow', hpc⟩ := ih h
        exact ⟨row', List.mem_cons_of_mem row hrow', hpc⟩
      unfold findHandler at h
      split at h
      · obtain ⟨accepted, vm₁, -, h⟩ := bind_eq_ok h
        split at h
        · cases h
          exact ⟨row, List.mem_cons_self, rfl⟩
        · exact hrest h
      · exact hrest h

/-- The frames that go on are some of those searched, the innermost at one of its handlers. -/
theorem seekHandler_handler {base : Nat} {thrown : ClassId} {frames frames' : List Frame}
    {vm vm' : Vm} (h : seekHandler base thrown frames vm = .ok (some frames') vm') :
    ∃ f below row, f :: below <:+ frames ∧ base ≤ below.length ∧ row ∈ f.body.handlers ∧
      frames' = { f with stack := [], pc := row.target.toNat } :: below := by
  induction frames generalizing vm with
  | nil => cases h
  | cons f below ih =>
      unfold seekHandler at h
      split at h
      · cases h
      · obtain ⟨pc?, vm₁, hfind, h⟩ := bind_eq_ok h
        cases pc? with
        | some pc =>
            cases h
            obtain ⟨row, hrow, rfl⟩ := findHandler_some hfind
            exact ⟨f, below, row, List.suffix_rfl, by omega, hrow, rfl⟩
        | none =>
            obtain ⟨f', below', row, hsuffix, hbase, hrow, rfl⟩ := ih h
            exact ⟨f', below', row, hsuffix.trans (List.suffix_cons f below), hbase, hrow, rfl⟩

theorem seekHandler_some {base : Nat} {thrown : ClassId} {frames frames' : List Frame}
    {vm vm' : Vm} (h : seekHandler base thrown frames vm = .ok (some frames') vm') :
    ∃ f below pc, f :: below <:+ frames ∧ base ≤ below.length ∧
      frames' = { f with stack := [], pc } :: below := by
  obtain ⟨f, below, row, hsuffix, hbase, -, hframes⟩ := seekHandler_handler h
  exact ⟨f, below, row.target.toNat, hsuffix, hbase, hframes⟩

theorem looks_stringText? (r : Ref) : Looks (stringText? r) := by
  refine looks_get.bind fun vm => ?_
  cases vm.heap.get? r with
  | none => exact looks_pure _
  | some o =>
      dsimp only
      split <;> exact looks_pure _

theorem looks_throwableMessage (r : Ref) : Looks (throwableMessage r) := by
  refine looks_get.bind fun vm => ?_
  cases vm.registry.find? throwableName with
  | none => exact looks_pure _
  | some root =>
      refine (looks_attempt (reads_getField _ _ _)).bind fun outcome => ?_
      cases outcome with
      | error e => exact looks_pure _
      | ok v =>
          dsimp only
          split
          · exact looks_pure _
          · exact (looks_stringText? _).bind fun _ => looks_pure _

theorem looks_traceOf (r : Ref) : Looks (traceOf r) :=
  looks_get.bind fun _ => looks_pure _

variable {prepare : ClassId → Exec Unit}

theorem Compositional.newThrowable {P : ∀ {α : Type}, Exec α → Prop} (hP : Compositional P)
    (hprepare : ∀ id, P (prepare id)) (className message : String) :
    P (newThrowable prepare className message) := by
  refine hP.bind (hP.small (local_loadClass _)) fun id => hP.bind (hprepare id) fun _ => ?_
  refine hP.bind (hP.small (local_allocInstance id)) fun r => hP.small ?_
  split
  · exact local_pure r
  · refine (local_loadClass _).bind fun root => (local_newString _).bind fun text => ?_
    exact (local_setField _ _ _ _).bind fun _ => local_pure r

theorem has_newThrowable {K : Effect} (hK : K.Steady) (hprepare : ∀ id, Has K (prepare id))
    (className message : String) : Has K (newThrowable prepare className message) :=
  (compositional_has hK).newThrowable hprepare className message

/-! ## Raising -/

variable {base : Nat} {e : Fault} {className message : String} {vm vm' : Vm}

theorem raiseFault_of_created {r : Ref} (hguest : e.guestException? = some (className, message))
    (hnew : newThrowable prepare className message vm = .ok r vm') :
    raiseFault prepare base e vm = unwind base r vm' := by
  have hattempt : attempt (newThrowable prepare className message) vm = .ok (.ok r) vm' := by
    rw [attempt_apply, hnew]
  unfold raiseFault
  rw [hguest]
  exact bind_of_ok hattempt

theorem raiseFault_of_uncreated {cause : Fault}
    (hguest : e.guestException? = some (className, message))
    (hnew : newThrowable prepare className message vm = .error (.fault cause) vm') :
    raiseFault prepare base e vm =
      .error (.fault (.cannotCreate className e.message cause)) (after (cutTo base) vm') := by
  have hattempt : attempt (newThrowable prepare className message) vm =
      .ok (.error cause) vm' := by
    rw [attempt_apply, hnew]
  unfold raiseFault
  rw [hguest]
  dsimp only
  rw [bind_apply, hattempt]
  rfl

end Exec

end ClassEngine.Machine
