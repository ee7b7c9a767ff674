import ClassEngine.Proofs.Machine.PlainRoot
import ClassEngine.Proofs.Machine.Reachability
import ClassEngine.Proofs.Machine.Rounds

/-!
# Caches of call sites

A cache holds what the dispatch table of the receiver's class has for the method that its
call instruction calls.  Neither the table nor the method ever changes, so a cache that is
right once stays right, and selecting with it is the same as looking into the table.
-/

namespace ClassEngine.Machine

open Code

/-! ## Operations on one cache -/

namespace InlineCache

variable {κ τ : Type} [DecidableEq κ] {c : InlineCache κ τ} {receiver : κ} {target : τ}

theorem mem_of_entry? (h : c.entry? receiver = some target) : (receiver, target) ∈ c.entries := by
  obtain ⟨e, he, rfl⟩ := Option.map_eq_some_iff.mp h
  have hkey : e.1 = receiver := by simpa using List.find?_some he
  exact hkey ▸ List.mem_of_find?_eq_some he

theorem entry?_of_lookup {target? : Option τ} {c' : InlineCache κ τ}
    (h : c.lookup receiver = (target?, c')) : c.entry? receiver = target? := by
  unfold lookup at h
  split at h <;> cases h <;> assumption

theorem entries_of_lookup {target? : Option τ} {c' : InlineCache κ τ}
    (h : c.lookup receiver = (target?, c')) : c'.entries = c.entries := by
  unfold lookup at h
  split at h <;> cases h <;> rfl

theorem mem_update {e : κ × τ} (h : e ∈ (c.update receiver target).entries) :
    e ∈ c.entries ∨ e = (receiver, target) := by
  unfold update at h
  split at h
  · exact .inl h
  · split at h
    · cases h
    · simpa using h

end InlineCache

/-! ## Right caches -/

/-- What a cache holds for a class of receivers is what the table of the class has. -/
def Vm.Selects (vm : Vm) (site : CallSite) (receiver : ClassId) (target : Method) : Prop :=
  ∃ m c, vm.Calls site m ∧ vm.registry.classes[receiver]? = some c ∧
    c.vtable.lookup? m.name m.descriptor = some target

structure Vm.Sound (vm : Vm) : Prop where
  coherent : vm.registry.Coherent vm.source
  fits : ∀ f ∈ vm.frames, f.Fits
  entries : ∀ s ∈ vm.sites, ∀ e ∈ s.2.entries, vm.Selects s.1 e.1 e.2

namespace Vm

variable {vm vm' : Vm} {site : CallSite} {receiver : ClassId} {target : Method}

theorem Selects.of_grows (h : vm.Selects site receiver target)
    (hvm : Exec.Descends vm.registry) (hgrows : vm.registry.Grows vm'.registry) :
    vm'.Selects site receiver target :=
  let ⟨m, c, hm, hc, htarget⟩ := h
  ⟨m, c, hm.of_grows hvm hgrows, hgrows.classes hc, htarget⟩

theorem Sound.descends (h : vm.Sound) : Exec.Descends vm.registry := h.coherent.descending

theorem Sound.entries_of_grows (h : vm.Sound) (hgrows : vm.registry.Grows vm'.registry)
    (hsites : vm'.sites = vm.sites) :
    ∀ s ∈ vm'.sites, ∀ e ∈ s.2.entries, vm'.Selects s.1 e.1 e.2 := by
  rw [hsites]
  exact fun s hs e he => (h.entries s hs e he).of_grows h.descends hgrows

theorem Sound.change (h : vm.Sound) (hchange : Change vm vm') : vm'.Sound where
  coherent := (keepsRegistry_of_change (o := none) hchange).2.2 h.coherent
  fits := by
    cases hchange with
    | heap | load | keep | assign | profiler => exact h.fits
    | frame f f' below current continues =>
        have hfits := h.fits
        rw [current] at hfits
        intro f₁ hf₁
        rcases List.mem_cons.mp hf₁ with rfl | hf₁
        · exact (hfits f List.mem_cons_self).continues continues
        · exact hfits f₁ (List.mem_cons_of_mem f hf₁)
    | enter f fits =>
        intro f₁ hf₁
        rcases List.mem_cons.mp hf₁ with rfl | hf₁
        · exact fits
        · exact h.fits f₁ hf₁
  entries := h.entries_of_grows (grows_of_change hchange) (by cases hchange <;> rfl)

theorem Sound.cacheAt (h : vm.Sound) {e : ClassId × Method}
    (he : e ∈ (vm.cacheAt site).entries) : vm.Selects site e.1 e.2 := by
  unfold Vm.cacheAt at he
  cases hs : vm.sites.find? (·.1 = site) with
  | none =>
      rw [hs] at he
      cases he
  | some s =>
      rw [hs] at he
      have hsite : s.1 = site := by simpa using List.find?_some hs
      exact hsite ▸ h.entries s (List.mem_of_find?_eq_some hs) e he

theorem Selects.of_registry (h : vm.Selects site receiver target)
    (hvm : Exec.Descends vm.registry) (hregistry : vm'.registry = vm.registry) :
    vm'.Selects site receiver target :=
  h.of_grows hvm (hregistry ▸ .refl _)

theorem Sound.setSite (h : vm.Sound) {cache : InlineCache ClassId Method}
    (hcache : ∀ e ∈ cache.entries, vm.Selects site e.1 e.2) :
    (Exec.after (Exec.setSite site cache) vm).Sound where
  coherent := h.coherent
  fits := h.fits
  entries := by
    intro s hs e he
    rcases List.mem_cons.mp hs with rfl | hs
    · exact (hcache e he).of_registry h.descends rfl
    · exact (h.entries s (List.mem_of_mem_filter hs) e he).of_registry h.descends rfl

theorem Sound.bare (h : vm.Sound) {frames : List Frame}
    (traces : List (Ref × List TraceElement)) (hframes : vm.Resumes frames) :
    { vm with frames, traces }.Sound where
  coherent := h.coherent
  fits := by
    intro f hf
    obtain ⟨f₀, hf₀, hcontinues⟩ := hframes f hf
    exact (h.fits f₀ hf₀).continues hcontinues
  entries := h.entries_of_grows (.refl _) rfl

theorem Sound.returns (h : vm.Sound) (returning : Bool) (result : Value) (hasResult : Bool) :
    { vm with returning, result, hasResult }.Sound where
  coherent := h.coherent
  fits := h.fits
  entries := h.entries_of_grows (.refl _) rfl

theorem Sound.journal (h : vm.Sound) (journal : List Event) : { vm with journal }.Sound where
  coherent := h.coherent
  fits := h.fits
  entries := h.entries_of_grows (.refl _) rfl

theorem Sound.setState (h : vm.Sound) (id : ClassId) (state : ClassState) :
    (Exec.after (Exec.setState id state) vm).Sound := by
  obtain ⟨-, hgrows, hcoherent⟩ := keepsRegistry_setState (o := none) id state vm
  exact ⟨hcoherent h.coherent, h.fits, h.entries_of_grows hgrows rfl⟩

theorem Sound.changes (h : vm.Sound) (hchanges : Changes vm vm') : vm'.Sound := by
  induction hchanges with
  | refl => exact h
  | tail _ hchange ih => exact ih.change hchange

theorem sound_start (source? : Option Search.Source) (maxFrames : Int)
    (profiler? : Option (Profiler MethodId)) : (Vm.start source? maxFrames profiler?).Sound where
  coherent := Registry.coherent_empty _
  fits := nofun
  entries := nofun

end Vm

/-! ## Selection -/

namespace Exec

def lookUp (m : Method) (receiver : Value) : Exec Method := do
  let c ← classAt (← classOfObject receiver.asRef)
  match c.vtable.lookup? m.name m.descriptor with
  | some target => return target
  | none => fault (.noSuchMethod (c.name ++ "." ++ m.name ++ m.descriptor))

theorem classOfObject_apply (r : Ref) (vm : Vm) :
    classOfObject r vm =
      match vm.heap.get? r with
      | some o => .ok o.classId vm
      | none => .error .undefined vm := by
  simp only [classOfObject, bind_apply, get_apply]
  cases vm.heap.get? r <;> rfl

theorem currentFrame_apply {vm : Vm} {f : Frame} {below : List Frame}
    (h : vm.frames = f :: below) : currentFrame vm = .ok f vm := by
  simp only [currentFrame, bind_apply, get_apply, h, pure_apply]

theorem lookUp_apply {m : Method} {receiver : Value} {vm : Vm} {o : Object}
    (ho : vm.heap.get? receiver.asRef = some o) :
    lookUp m receiver vm =
      match vm.registry.classes[o.classId]? with
      | none => .error .undefined vm
      | some c =>
        match c.vtable.lookup? m.name m.descriptor with
        | some target => .ok target vm
        | none => .error (.fault (.noSuchMethod (c.name ++ "." ++ m.name ++ m.descriptor))) vm := by
  simp only [lookUp, bind_apply, classOfObject_apply, ho, classAt_apply]
  cases vm.registry.classes[o.classId]? with
  | none => rfl
  | some c =>
      dsimp only
      cases c.vtable.lookup? m.name m.descriptor <;> rfl

theorem lookUp_of_selects {vm : Vm} {m target : Method} {receiver : Value} {o : Object}
    {site : CallSite} (ho : vm.heap.get? receiver.asRef = some o) (hm : vm.Calls site m)
    (h : vm.Selects site o.classId target) : lookUp m receiver vm = .ok target vm := by
  obtain ⟨m', c, hm', hc, htarget⟩ := h
  cases hm'.unique hm
  rw [lookUp_apply ho, hc]
  dsimp only
  rw [htarget]

theorem found_of_lookUp {m target : Method} {receiver : Value} {vm vm' : Vm}
    (h : lookUp m receiver vm = .ok target vm') :
    ∃ o c, vm.heap.get? receiver.asRef = some o ∧ vm.registry.classes[o.classId]? = some c ∧
      c.vtable.lookup? m.name m.descriptor = some target := by
  cases ho : vm.heap.get? receiver.asRef with
  | none =>
      have hclass : classOfObject receiver.asRef vm = .error .undefined vm := by
        rw [classOfObject_apply, ho]
      rw [lookUp, bind_of_error hclass] at h
      cases h
  | some o =>
      rw [lookUp_apply ho] at h
      cases hc : vm.registry.classes[o.classId]? with
      | none =>
          rw [hc] at h
          cases h
      | some c =>
          simp only [hc] at h
          split at h <;> cases h
          exact ⟨o, c, rfl, hc, ‹_›⟩

theorem setSite_apply (site : CallSite) (cache : InlineCache ClassId Method) (vm : Vm) :
    setSite site cache vm = .ok () (after (setSite site cache) vm) := rfl

/-- What the cache does not have is taken from the table, and put into the cache. -/
theorem miss_spec {vm : Vm} (h : vm.Sound) {site : CallSite} {m : Method} (hm : vm.Calls site m)
    {cache : InlineCache ClassId Method} (hcache : ∀ e ∈ cache.entries, vm.Selects site e.1 e.2)
    {receiver : Value} {o : Object} (ho : vm.heap.get? receiver.asRef = some o) :
    ∃ sites, (do
        let c ← classAt o.classId
        match c.vtable.lookup? m.name m.descriptor with
        | none => fault (.noSuchMethod (c.name ++ "." ++ m.name ++ m.descriptor))
        | some target =>
          setSite site (cache.update o.classId target)
          return target : Exec Method) vm = lookUp m receiver { vm with sites } ∧
      { vm with sites }.Sound := by
  cases hc : vm.registry.classes[o.classId]? with
  | none =>
      have hclass := classAt_apply_of_none hc
      exact ⟨vm.sites, by rw [bind_of_error hclass, lookUp_apply ho, hc], h⟩
  | some c =>
      rw [bind_of_ok (classAt_apply_of_some hc)]
      cases htarget : c.vtable.lookup? m.name m.descriptor with
      | none =>
          refine ⟨vm.sites, ?_, h⟩
          rw [lookUp_apply ho, hc]
          dsimp only
          rw [htarget]
          rfl
      | some target =>
          have hselects : vm.Selects site o.classId target := ⟨m, c, hm, hc, htarget⟩
          have hset : (after (setSite site (cache.update o.classId target)) vm).Sound := by
            refine h.setSite fun e he => ?_
            rcases InlineCache.mem_update he with he | rfl
            · exact hcache e he
            · exact hselects
          have hlookup : lookUp m receiver
              (after (setSite site (cache.update o.classId target)) vm) =
                .ok target (after (setSite site (cache.update o.classId target)) vm) :=
            lookUp_of_selects ho (hm.of_grows h.descends (.refl _))
              (hselects.of_registry h.descends rfl)
          exact ⟨_, hlookup.symm, hset⟩

theorem selectMethod_spec {vm : Vm} (h : vm.Sound) {m : Method} (hm : vm.Calling m)
    (receiver : Value) :
    ∃ sites, selectMethod m receiver vm = lookUp m receiver { vm with sites } ∧
      { vm with sites }.Sound := by
  obtain ⟨f, below, hframes, hcalls⟩ := hm
  unfold selectMethod
  cases ho : vm.heap.get? receiver.asRef with
  | none =>
      have hclass : classOfObject receiver.asRef vm = .error .undefined vm := by
        rw [classOfObject_apply, ho]
      exact ⟨vm.sites, by rw [lookUp, bind_of_error hclass, bind_of_error hclass], h⟩
  | some o =>
      have hclass : classOfObject receiver.asRef vm = .ok o.classId vm := by
        rw [classOfObject_apply, ho]
      rw [bind_of_ok hclass, bind_of_ok (currentFrame_apply hframes), bind_of_ok (get_apply vm)]
      dsimp only
      generalize hlooked : (vm.cacheAt ⟨f.method, f.opPc⟩).lookup o.classId = looked
      obtain ⟨target?, cache⟩ := looked
      have hcache : ∀ e ∈ cache.entries, vm.Selects ⟨f.method, f.opPc⟩ e.1 e.2 := by
        intro e he
        rw [InlineCache.entries_of_lookup hlooked] at he
        exact h.cacheAt he
      have hcounted := h.setSite hcache
      have hcalls' : (after (setSite ⟨f.method, f.opPc⟩ cache) vm).Calls ⟨f.method, f.opPc⟩ m :=
        hcalls.of_grows h.descends (.refl _)
      rw [bind_of_ok (setSite_apply _ cache vm)]
      cases target? with
      | some target =>
          have hhit := InlineCache.entry?_of_lookup hlooked
          have hlookup : lookUp m receiver (after (setSite ⟨f.method, f.opPc⟩ cache) vm) =
              .ok target (after (setSite ⟨f.method, f.opPc⟩ cache) vm) :=
            lookUp_of_selects ho hcalls'
              ((h.cacheAt (InlineCache.mem_of_entry? hhit)).of_registry h.descends rfl)
          exact ⟨_, hlookup.symm, hcounted⟩
      | none =>
          exact miss_spec hcounted hcalls'
            (fun e he => (hcache e he).of_registry h.descends rfl) ho

end Exec

/-! ## Inside one instruction -/

def staysThere : Effect := fun a _ b =>
  ∀ f below, a.frames = f :: below →
    ∃ f', b.frames = f' :: below ∧ f.Continues f' ∧ f'.opPc = f.opPc

namespace Exec

variable {α β : Type}

abbrev Stays (x : Exec α) : Prop := Has staysThere x

theorem Stays.bind {x : Exec α} {f : α → Exec β} (hx : Stays x) (hf : ∀ a, Stays (f a)) :
    Stays (x >>= f) := by
  refine Has.bind_of_trans (fun hab hbc f below hframes => ?_) hx hf
  obtain ⟨f', hframes', hcontinues, hpc⟩ := hab f below hframes
  obtain ⟨f'', hframes'', hcontinues', hpc'⟩ := hbc f' below hframes'
  exact ⟨f'', hframes'', hcontinues.trans hcontinues', hpc'.trans hpc⟩

theorem stays_of_frames {x : Exec α} (h : ∀ vm, (after x vm).frames = vm.frames) : Stays x :=
  fun vm f _ hframes => ⟨f, (h vm).trans hframes, .refl f, rfl⟩

theorem Reads.stays {x : Exec α} (hx : Reads x) : Stays x :=
  stays_of_frames fun vm => congrArg Vm.frames (hx vm).1

theorem stays_fault (e : Fault) : Stays (fault e : Exec α) := stays_of_frames fun _ => rfl

theorem stays_ofExcept (e : Except Fault α) : Stays (ofExcept e) := by
  cases e <;> exact stays_of_frames fun _ => rfl

theorem stays_attempt {x : Exec α} (hx : Stays x) : Stays (attempt x) := by
  intro vm
  rw [after_attempt]
  exact hx vm

theorem stays_onFrame {x : FrameM α} [hx : x.Proper (· = .divisionByZero)]
    (hpc : ∀ f, (x.after f).opPc = f.opPc) : Stays (onFrame x) := by
  intro vm f below hframes
  rw [after_onFrame x hframes]
  exact ⟨x.after f, rfl, (hx.proper f).continues, hpc f⟩

theorem stays_fetch (width : Nat) (value? : Array UInt8 → Nat → Option α) :
    Stays (onFrame (.fetch width value?)) := by
  refine stays_onFrame fun f => ?_
  rw [FrameM.after, FrameM.fetch_apply]
  cases value? f.body.code f.pc <;> rfl

theorem stays_peek (depth : Nat) : Stays (onFrame (.peek depth)) := by
  refine stays_onFrame fun f => ?_
  rw [FrameM.after, FrameM.peek_apply]
  cases f.stack[depth]? <;> rfl

theorem stays_entry (e : Except ClassFile.PoolError α) : Stays (entry e) := by
  cases e <;> exact stays_of_frames fun _ => rfl

theorem stays_loadClass (name : String) : Stays (loadClass name) :=
  stays_of_frames fun vm => by rw [after_loadClass]

theorem stays_followMethod (id : ClassId) (index : UInt16) (tags : List ClassFile.Tag) :
    Stays (followMethod id index tags) := by
  refine (reads_classAt id).stays.bind fun c => (stays_entry _).bind fun ref => ?_
  refine (stays_loadClass ref.owner).bind fun owner => (reads_classAt owner).stays.bind fun c => ?_
  split
  · exact stays_fault _
  · refine reads_get.stays.bind fun vm => ?_
    cases vm.registry.classes.findMethod? owner ref.name ref.descriptor with
    | some m => exact (reads_pure _).stays
    | none => exact stays_fault _

theorem stays_resolve {id : ClassId} {index : UInt16} {use : PoolUse} {follow : Exec Resolved}
    (h : Stays follow) : Stays (resolve id index use follow) := by
  refine (reads_statusAt id).stays.bind fun s => ?_
  cases kept s index use with
  | outcome o => exact stays_ofExcept o
  | otherUse => exact h
  | nothing =>
      refine (stays_attempt h).bind fun outcome => ?_
      exact (stays_of_frames fun _ => rfl).bind fun _ => stays_ofExcept outcome

theorem stays_resolveCallee (id : ClassId) (index : UInt16) (use : PoolUse) :
    Stays (resolveCallee id index use) := by
  cases use with
  | interfaceMethod =>
      refine (stays_resolve (stays_followMethod id index _)).bind fun r => ?_
      cases r <;> exact stays_of_frames fun _ => rfl
  | _ =>
      refine (stays_resolve (stays_followMethod id index _)).bind fun r => ?_
      cases r <;> exact stays_of_frames fun _ => rfl

theorem stays_receiver (m : Method) : Stays (receiver m) := by
  refine (stays_peek _).bind fun v => ?_
  split
  · exact stays_fault _
  · exact (reads_pure v).stays

theorem stays_checkInstanceMethod (m : Method) : Stays (checkInstanceMethod m) := by
  unfold checkInstanceMethod
  split
  · exact stays_fault _
  · exact (reads_pure _).stays

/-! ## Call instructions -/

variable {vm : Vm} {m : Method} {use : PoolUse} {index : UInt16}

theorem sound_bind {x : Exec α} {f : α → Exec β} (hx : Local x) (h : vm.Sound)
    (hf : ∀ a vm', x vm = .ok a vm' → vm'.Sound → (after (f a) vm').Sound) :
    (after (x >>= f) vm).Sound :=
  ends_bind (P := fun _ b => b.Sound) (fun a vm' hok => hf a vm' hok (h.changes (hx.ok hok).1))
    fun _ _ herror => h.changes (hx.error herror).1

theorem calling_bind {x : Exec α} {f : α → Exec β} (hx : Local x) (hstays : Stays x)
    (h : vm.Sound) (hm : vm.Calling m)
    (hf : ∀ a vm', vm'.Sound → vm'.Calling m → (after (f a) vm').Sound) :
    (after (x >>= f) vm).Sound := by
  refine sound_bind hx h fun a vm' hok hvm' => hf a vm' hvm' ?_
  obtain ⟨f₀, below, hframes, hcalls⟩ := hm
  obtain ⟨f₁, hframes₁, hcontinues, hpc⟩ := hstays.ok hok f₀ below hframes
  have hgrows := grows_of_changes (hx.ok hok).1
  exact ⟨f₁, below, hframes₁, hcontinues.method ▸ hpc ▸ hcalls.of_grows h.descends hgrows⟩

theorem reads_lookUp (m : Method) (receiver : Value) : Reads (lookUp m receiver) := by
  refine (reads_classOfObject _).bind fun rc => (reads_classAt rc).bind fun c => ?_
  cases c.vtable.lookup? m.name m.descriptor with
  | none => exact reads_fault _ rfl
  | some target => exact reads_pure target

theorem sound_selectMethod (h : vm.Sound) (hm : vm.Calling m) (receiver : Value) :
    (after (selectMethod m receiver) vm).Sound := by
  obtain ⟨sites, hselect, hsound⟩ := selectMethod_spec h hm receiver
  refine ends_of_eq (P := fun _ b => b.Sound) hselect ?_
  rw [(reads_lookUp m receiver _).1]
  exact hsound

theorem sound_dispatch (h : vm.Sound) (hm : vm.Calling m) (receiver : Value) :
    (after (dispatch m receiver) vm).Sound := by
  unfold dispatch
  split
  · exact h.changes (local_call m vm).1
  · have hselect := sound_selectMethod h hm receiver
    refine ends_bind (P := fun _ b => b.Sound) (fun target vm' hok => ?_) fun stop vm' herror => ?_
    · rw [after_ok hok] at hselect
      exact hselect.changes (local_call target vm').1
    · rwa [after_error herror] at hselect

/-- The current instruction is a call with this entry of the pool. -/
def AtCall (vm : Vm) (use : PoolUse) (index : UInt16) : Prop :=
  ∃ f below, vm.frames = f :: below ∧ callAt? f.body f.opPc = some (use, index)

theorem AtCall.stays {x : Exec α} (hx : Stays x) {vm' : Vm} {a : α} (h : AtCall vm use index)
    (hok : x vm = .ok a vm') : AtCall vm' use index := by
  obtain ⟨f, below, hframes, hcall⟩ := h
  obtain ⟨f', hframes', hcontinues, hpc⟩ := hx.ok hok f below hframes
  exact ⟨f', below, hframes', by rw [hcontinues.body, hpc, hcall]⟩

theorem calling_of_resolveCallee {vm' : Vm} {f : Frame} {below : List Frame} (hvm' : vm'.Sound)
    (hframes : vm.frames = f :: below) (hcall : callAt? f.body f.opPc = some (use, index))
    (hok : resolveCallee f.method.id.owner index use vm = .ok m vm') : vm'.Calling m := by
  have hrepeat := repeatable_resolveCallee f.method.id.owner index use
  obtain ⟨f', hframes', hcontinues, hpc⟩ := (stays_resolveCallee _ index use).ok hok f below hframes
  have hfits : f'.Fits := hvm'.fits f' (hframes' ▸ List.mem_cons_self)
  have hfirst : attempt (resolveCallee f.method.id.owner index use) vm = .ok (.ok m) vm' := by
    rw [attempt_apply, hok]
  have hagain := ok_of_attempt (hrepeat.again hvm'.descends hfirst (.refl _))
  rw [← hcontinues.method] at hagain
  exact ⟨f', below, hframes', ⟨f'.body, use, index, hfits,
    by rw [hcontinues.body, hpc, hcall], hagain⟩⟩

theorem currentClass_apply {f : Frame} {below : List Frame} (hframes : vm.frames = f :: below) :
    currentClass vm = .ok f.method.id.owner vm := by
  rw [currentClass, bind_of_ok (currentFrame_apply hframes)]
  rfl

theorem sound_callee {k : Method → Exec Unit} (h : vm.Sound) (hcall : AtCall vm use index)
    (hk : ∀ m vm', vm'.Sound → vm'.Calling m → (after (k m) vm').Sound) :
    (after (do
      let m ← resolveCallee (← currentClass) index use
      k m) vm).Sound := by
  obtain ⟨f, below, hframes, hcall⟩ := hcall
  refine ends_of_eq (P := fun _ b => b.Sound) (bind_of_ok (currentClass_apply hframes)) ?_
  have hrepeat := repeatable_resolveCallee f.method.id.owner index use
  exact sound_bind hrepeat.isLocal h fun m vm' hok hvm' =>
    hk m vm' hvm' (calling_of_resolveCallee hvm' hframes hcall hok)

variable {f : Frame} {below : List Frame} {byte : UInt8} {op : Operation}

theorem atCall_of_fetched (hbyte : f.body.code[f.pc]? = some byte)
    (hop : (⟨byte⟩ : Opcode).operation? = some op) (huse : selectionUse? op = some use)
    {vm' : Vm} (hok : onFrame .u16 (fetched vm f below) = .ok index vm') :
    AtCall vm' use index := by
  simp only [onFrame, FrameM.u16, FrameM.fetch_apply] at hok
  cases hindex : BigEndian.read16? f.body.code (f.pc + 1) with
  | none =>
      rw [hindex] at hok
      cases hok
  | some i =>
      rw [hindex] at hok
      cases hok
      exact ⟨_, below, rfl, by simp [callAt?, hbyte, hop, huse, hindex]⟩

theorem sound_invoke {op : InvokeOp} (hbyte : f.body.code[f.pc]? = some byte)
    (hop : (⟨byte⟩ : Opcode).operation? = some (.invoke op))
    (huse : selectionUse? (.invoke op) = some use) (h : (fetched vm f below).Sound)
    (prepare : ClassId → Exec Unit) :
    (after (invoke prepare op) (fetched vm f below)).Sound := by
  have hfetch {index : UInt16} {vm' : Vm}
      (hok : onFrame .u16 (fetched vm f below) = .ok index vm') : AtCall vm' use index :=
    atCall_of_fetched hbyte hop huse hok
  cases op with
  | static | special | dynamic => cases huse
  | virtual =>
      cases huse
      refine sound_bind (local_onFrame _) h fun index vm₁ hok h₁ => ?_
      refine sound_callee h₁ (hfetch hok) fun m vm₂ h₂ hm => ?_
      refine calling_bind (local_checkInstanceMethod m) (stays_checkInstanceMethod m) h₂ hm ?_
      intro _ vm₃ h₃ hm
      refine calling_bind (local_receiver m) (stays_receiver m) h₃ hm fun v vm₄ h₄ hm => ?_
      exact sound_dispatch h₄ hm v
  | interface =>
      cases huse
      refine sound_bind (local_onFrame _) h fun index vm₁ hok h₁ => ?_
      have hcall := hfetch hok
      refine sound_bind (local_onFrame _) h₁ fun _ vm₂ hok h₂ => ?_
      have hcall := hcall.stays (stays_fetch _ _) hok
      refine sound_bind (local_onFrame _) h₂ fun _ vm₃ hok h₃ => ?_
      have hcall := hcall.stays (stays_fetch _ _) hok
      refine sound_callee h₃ hcall fun m vm₄ h₄ hm => ?_
      refine calling_bind (local_checkInstanceMethod m) (stays_checkInstanceMethod m) h₄ hm ?_
      intro _ vm₅ h₅ hm
      refine calling_bind (local_receiver m) (stays_receiver m) h₅ hm fun v vm₆ h₆ hm => ?_
      have hclass := reads_classOfObject v.asRef
      refine calling_bind hclass.isLocal hclass.stays h₆ hm fun rc vm₇ h₇ hm => ?_
      refine calling_bind local_get reads_get.stays h₇ hm fun _ vm₈ h₈ hm => ?_
      split
      · exact sound_dispatch h₈ hm v
      · have hrefuse (c : Class) : Local (fault (.incompatible
            (c.name ++ " does not implement " ++ m.ownerName)) : Exec Unit) := local_fault _ rfl
        exact h₈.changes ((local_classAt rc).bind hrefuse vm₈).1

theorem fetched_of_ok {vm₁ vm₂ : Vm} (hbegin : onFrame .beginInstruction vm = .ok () vm₁)
    (hfetch : onFrame .u8 vm₁ = .ok byte vm₂) :
    ∃ f below, f.body.code[f.pc]? = some byte ∧ vm₂ = fetched vm f below := by
  cases hframes : vm.frames with
  | nil =>
      simp only [onFrame, hframes] at hbegin
      cases hbegin
  | cons f below =>
      rw [begin_apply hframes] at hbegin
      cases hbegin
      simp only [onFrame, FrameM.u8, FrameM.fetch_apply] at hfetch
      cases hbyte : f.body.code[f.pc]? with
      | none =>
          rw [hbyte] at hfetch
          cases hfetch
      | some byte' =>
          rw [hbyte] at hfetch
          cases hfetch
          exact ⟨f, below, hbyte, rfl⟩

end Exec

namespace Vm

theorem kept_sound : Vm.Kept Vm.Sound where
  change hchange h := h.change hchange
  bare traces hframes h := h.bare traces hframes
  returns returning result hasResult h := h.returns returning result hasResult
  journal journal h := h.journal journal
  setState id state h := h.setState id state

theorem sound_step {prepare : ClassId → Exec Unit}
    (hprepare : ∀ id, Exec.Has (keeps Vm.Sound) (prepare id)) :
    Exec.Has (keeps Vm.Sound) (Exec.step prepare) := by
  intro vm h
  refine Exec.sound_bind (Exec.local_onFrame _) h fun _ vm₁ hbegin h₁ => ?_
  refine Exec.sound_bind (Exec.local_onFrame _) h₁ fun byte vm₂ hfetch h₂ => ?_
  obtain ⟨f, below, hbyte, rfl⟩ := Exec.fetched_of_ok hbegin hfetch
  dsimp only
  cases hop : (⟨byte⟩ : Opcode).operation? with
  | none => exact h₂.changes (Exec.local_unsupported (α := Unit) _ _).1
  | some op =>
      cases huse : Exec.selectionUse? op with
      | none =>
          have hselect (hsome : Exec.selectionUse? op ≠ none) (m : Method) (v : Value) :
              Exec.Has (keeps Vm.Sound) (Exec.selectMethod m v) := absurd huse hsome
          exact Exec.has_operation kept_sound.working hprepare hselect _ h₂
      | some use =>
          cases op with
          | invoke op =>
              have hinvoke := Exec.sound_invoke hbyte hop huse h₂ prepare
              exact hinvoke
          | _ => cases huse

theorem invariant_sound : Vm.Invariant Vm.Sound where
  toKept := kept_sound
  select receiver hm h := Exec.sound_selectMethod h hm receiver
  step := sound_step

theorem Reachable.sound {vm : Vm} (h : vm.Reachable) : vm.Sound :=
  h.invariant invariant_sound sound_start

end Vm

/-- In every reachable state each entry of a cache is what the dispatch table of its class has
for the method that the call instruction calls.  So a call selects what looking into the table
would find, the same method or the same fault, and changes nothing but caches. -/
theorem caches_transparent {vm : Vm} (h : vm.Reachable) :
    (∀ s ∈ vm.sites, ∀ e ∈ s.2.entries, ∃ m c, vm.Calls s.1 m ∧
      vm.registry.classes[e.1]? = some c ∧
        c.vtable.lookup? m.name m.descriptor = some e.2) ∧
      ∀ m receiver, vm.Calling m →
        ∃ sites, Exec.selectMethod m receiver vm = Exec.lookUp m receiver { vm with sites } := by
  refine ⟨h.sound.entries, fun m receiver hm => ?_⟩
  obtain ⟨sites, hselect, -⟩ := Exec.selectMethod_spec h.sound hm receiver
  exact ⟨sites, hselect⟩

namespace HiddenMethod

def rootFile : List UInt8 := [
  0xca, 0xfe, 0xba, 0xbe, 0x00, 0x00, 0x00, 0x34, 0x00, 0x06, 0x01, 0x00, 0x10, 0x6a, 0x61, 0x76,
  0x61, 0x2f, 0x6c, 0x61, 0x6e, 0x67, 0x2f, 0x4f, 0x62, 0x6a, 0x65, 0x63, 0x74, 0x07, 0x00, 0x01,
  0x01, 0x00, 0x06, 0x68, 0x69, 0x64, 0x64, 0x65, 0x6e, 0x01, 0x00, 0x03, 0x28, 0x29, 0x49, 0x01,
  0x00, 0x04, 0x43, 0x6f, 0x64, 0x65, 0x00, 0x21, 0x00, 0x02, 0x00, 0x00, 0x00, 0x00, 0x00, 0x00,
  0x00, 0x01, 0x00, 0x00, 0x00, 0x03, 0x00, 0x04, 0x00, 0x01, 0x00, 0x05, 0x00, 0x00, 0x00, 0x0e,
  0x00, 0x01, 0x00, 0x01, 0x00, 0x00, 0x00, 0x02, 0x04, 0xac, 0x00, 0x00, 0x00, 0x00, 0x00, 0x00]

def otherFile : List UInt8 := [
  0xca, 0xfe, 0xba, 0xbe, 0x00, 0x00, 0x00, 0x34, 0x00, 0x0c, 0x01, 0x00, 0x01, 0x42, 0x07, 0x00,
  0x01, 0x01, 0x00, 0x10, 0x6a, 0x61, 0x76, 0x61, 0x2f, 0x6c, 0x61, 0x6e, 0x67, 0x2f, 0x4f, 0x62,
  0x6a, 0x65, 0x63, 0x74, 0x07, 0x00, 0x03, 0x01, 0x00, 0x06, 0x68, 0x69, 0x64, 0x64, 0x65, 0x6e,
  0x01, 0x00, 0x03, 0x28, 0x29, 0x49, 0x01, 0x00, 0x04, 0x63, 0x61, 0x6c, 0x6c, 0x01, 0x00, 0x06,
  0x28, 0x4c, 0x42, 0x3b, 0x29, 0x49, 0x0c, 0x00, 0x05, 0x00, 0x06, 0x0a, 0x00, 0x04, 0x00, 0x09,
  0x01, 0x00, 0x04, 0x43, 0x6f, 0x64, 0x65, 0x00, 0x21, 0x00, 0x02, 0x00, 0x04, 0x00, 0x00, 0x00,
  0x00, 0x00, 0x02, 0x00, 0x00, 0x00, 0x05, 0x00, 0x06, 0x00, 0x01, 0x00, 0x0b, 0x00, 0x00, 0x00,
  0x0e, 0x00, 0x01, 0x00, 0x01, 0x00, 0x00, 0x00, 0x02, 0x05, 0xac, 0x00, 0x00, 0x00, 0x00, 0x00,
  0x09, 0x00, 0x07, 0x00, 0x08, 0x00, 0x01, 0x00, 0x0b, 0x00, 0x00, 0x00, 0x11, 0x00, 0x01, 0x00,
  0x01, 0x00, 0x00, 0x00, 0x05, 0x2a, 0xb6, 0x00, 0x0a, 0xac, 0x00, 0x00, 0x00, 0x00, 0x00, 0x00]

def nearFile : List UInt8 := [
  0xca, 0xfe, 0xba, 0xbe, 0x00, 0x00, 0x00, 0x34, 0x00, 0x08, 0x01, 0x00, 0x0e, 0x6a, 0x61, 0x76,
  0x61, 0x2f, 0x6c, 0x61, 0x6e, 0x67, 0x2f, 0x4e, 0x65, 0x61, 0x72, 0x07, 0x00, 0x01, 0x01, 0x00,
  0x10, 0x6a, 0x61, 0x76, 0x61, 0x2f, 0x6c, 0x61, 0x6e, 0x67, 0x2f, 0x4f, 0x62, 0x6a, 0x65, 0x63,
  0x74, 0x07, 0x00, 0x03, 0x01, 0x00, 0x06, 0x68, 0x69, 0x64, 0x64, 0x65, 0x6e, 0x01, 0x00, 0x03,
  0x28, 0x29, 0x49, 0x01, 0x00, 0x04, 0x43, 0x6f, 0x64, 0x65, 0x00, 0x21, 0x00, 0x02, 0x00, 0x04,
  0x00, 0x00, 0x00, 0x00, 0x00, 0x01, 0x00, 0x00, 0x00, 0x05, 0x00, 0x06, 0x00, 0x01, 0x00, 0x07,
  0x00, 0x00, 0x00, 0x0e, 0x00, 0x01, 0x00, 0x01, 0x00, 0x00, 0x00, 0x02, 0x06, 0xac, 0x00, 0x00,
  0x00, 0x00, 0x00, 0x00]

def files : Search.Memory :=
  ⟨[(ClassFile.rootClassName, .ok rootFile), ("B", .ok otherFile),
    ("java/lang/Near", .ok nearFile)]⟩

def start : Vm := Vm.start (some files.source) 0 none

def methodOf (owner index : Nat) (ownerName name descriptor : String) (flags : UInt16)
    (params : List ClassFile.FieldType) (body : ClassFile.Body) : Method :=
  ⟨⟨owner, index⟩, ownerName, 0x0021, name, descriptor, flags,
    ⟨params, some (.base .int "I"), descriptor⟩, some body⟩

def hidden : Method :=
  methodOf 0 0 ClassFile.rootClassName "hidden" "()I" 0 [] ⟨1, 1, #[0x04, 0xac], [], []⟩

def other : Method := methodOf 1 0 "B" "hidden" "()I" 0 [] ⟨1, 1, #[0x05, 0xac], [], []⟩

def hiddenRef : ClassFile.Member := ⟨.method, ClassFile.rootClassName, "hidden", "()I"⟩

def callBody : ClassFile.Body := ⟨1, 1, #[0x2a, 0xb6, 0x00, 0x0a, 0xac], [], []⟩

def call : Method := methodOf 1 1 "B" "call" "(LB;)I" 9 [.object "B" "LB;"] callBody

def root : Class :=
  { PlainRoot.root with
    methods := [hidden]
    vtable := ⟨#[hidden], [(⟨"hidden", "()I"⟩, 0)]⟩
    pool := ⟨#[none, some (.utf8 ClassFile.rootClassName), some (.classRef 1),
      some (.utf8 "hidden"), some (.utf8 "()I"), some (.utf8 "Code")]⟩ }

def subclass : Class :=
  { PlainRoot.root with
    name := "B"
    super? := some 0
    methods := [other, call]
    vtable := ⟨#[hidden, other], [(⟨"hidden", "()I"⟩, 1)]⟩
    pool := ⟨#[none, some (.utf8 "B"), some (.classRef 1), some (.utf8 ClassFile.rootClassName),
      some (.classRef 3), some (.utf8 "hidden"), some (.utf8 "()I"), some (.utf8 "call"),
      some (.utf8 "(LB;)I"), some (.nameAndType 5 6), some (.member .method 4 9),
      some (.utf8 "Code")]⟩ }

def withRoot : Registry := (({} : Registry).add root .linked #[]).2

def withSubclass : Registry := (withRoot.add subclass .linked #[]).2

def resolved : Registry :=
  withSubclass.modifyStatus 1 fun s =>
    { s with resolutions := s.resolutions.setIfInBounds 10 (some ⟨.method, .ok (.method hidden)⟩) }

def frame : Frame := ⟨call, callBody, #[.ref ⟨1⟩], [.ref ⟨1⟩], 2, 1⟩

def loaded : Vm := { start with registry := withSubclass }

def linked : Vm := { start with registry := resolved }

def created : Vm := { linked with heap := ⟨#[{ classId := 1 }], []⟩ }

def entered : Vm := { created with frames := [.enter call callBody #[.ref ⟨1⟩]] }

def calling : Vm := { entered with frames := [frame] }

theorem load_root : load start.source ["B"] ClassFile.rootClassName {} = (.ok 0, withRoot) :=
  Registry.load_alone root (by decide) (by with_unfolding_all decide) (by with_unfolding_all decide)

theorem load_subclass : load start.source [] "B" {} = (.ok 1, withSubclass) := by
  have hgather : gather (load start.source ["B"]) "B" [⟨.superclass, ClassFile.rootClassName⟩] {} =
      (.ok [0], withRoot) :=
    Registry.gather_cons load_root (by decide) rfl
  exact Registry.load_of_gathered withRoot subclass (by with_unfolding_all decide) (by decide)
    (by decide +kernel) (by decide +kernel) hgather (by decide +kernel)

theorem answer_load : Exec.answer (.request 0 (.load "B")) start = .ok () loaded :=
  Exec.answer_load 0 load_subclass

theorem followMethod_hidden :
    Exec.followMethod 1 10 [.methodRef, .interfaceMethodRef] loaded =
      .ok (.method hidden) loaded :=
  Exec.followMethod_of_found (rfl : loaded.registry.classes[1]? = some subclass)
    (rfl : _ = Except.ok hiddenRef) (by with_unfolding_all decide)
    (rfl : loaded.registry.classes[0]? = some root) (by decide) (by with_unfolding_all decide)

theorem resolveMethod_hidden : Exec.resolveMethod 1 10 loaded = .ok hidden linked :=
  Exec.resolveMethod_of_followed rfl rfl followMethod_hidden rfl

theorem answer_resolve : Exec.answer (.resolve .method 1 10) loaded = .ok () linked := by
  rw [Exec.answer, Exec.resolveEntry, Exec.bind_of_ok resolveMethod_hidden]
  rfl

theorem answer_newObject : Exec.answer (.newObject 1) linked = .ok () created := by
  have hclass : linked.registry.classes[1]? = some subclass := rfl
  have hheap : linked.heap.allocInstance 1 subclass = (⟨1⟩, created.heap) := by
    with_unfolding_all decide
  rw [Exec.answer, Exec.bind_of_ok (Exec.allocInstance_apply_of_some hclass), hheap]
  rfl

theorem execute_call :
    Exec.executeBy (Exec.run 0) call [.ref ⟨1⟩] created = .error .exhausted entered := by
  rw [Exec.executeBy_apply rfl (by decide) (rfl : call.body? = some callBody) (by decide)
    (by decide) (by decide : _ = Except.ok #[.ref ⟨1⟩])]
  rfl

theorem reachable_calling : calling.Reachable := by
  have hstart : start.Reachable := .start (some files.source) 0 none
  have hloaded : loaded.Reachable := Exec.after_ok answer_load ▸ hstart.answer _
  have hlinked : linked.Reachable := Exec.after_ok answer_resolve ▸ hloaded.answer _
  have hcreated : created.Reachable := Exec.after_ok answer_newObject ▸ hlinked.answer _
  have hrun : Interrupts (Exec.run 0) (Exec.run 0) := fun _ _ => .inl rfl
  have hentered : entered.Reachable :=
    Exec.after_error execute_call ▸ hcreated.execute hrun call [.ref ⟨1⟩]
  exact hentered.change (.frame entered _ frame [] rfl ⟨rfl, rfl⟩)

theorem calling_hidden : calling.Calling hidden :=
  ⟨frame, [], rfl, ⟨callBody, .method, 10, rfl, by decide +kernel, rfl⟩⟩

def site : CallSite := ⟨call, 1⟩

def selected : Vm := { calling with sites := [(site, ⟨[(1, other)], false, 0, 1⟩)] }

theorem selectMethod_hidden : Exec.selectMethod hidden (.ref ⟨1⟩) calling = .ok other selected :=
  rfl

theorem reachable_selected : selected.Reachable :=
  Exec.after_ok selectMethod_hidden ▸ reachable_calling.select calling_hidden (.ref ⟨1⟩)

theorem caches_transparent_hidden :
    selected.Reachable ∧ selected.Calling hidden ∧ (1, other) ∈ (selected.cacheAt site).entries ∧
      (∀ s ∈ selected.sites, ∀ e ∈ s.2.entries, ∃ m c, selected.Calls s.1 m ∧
        selected.registry.classes[e.1]? = some c ∧
          c.vtable.lookup? m.name m.descriptor = some e.2) ∧
      ∃ sites, Exec.selectMethod hidden (.ref ⟨1⟩) selected =
        Exec.lookUp hidden (.ref ⟨1⟩) { selected with sites } := by
  have hcalls : selected.Calling hidden := by
    obtain ⟨f, below, hframes, hcalls⟩ := calling_hidden
    exact ⟨f, below, hframes, hcalls.of_grows reachable_calling.sound.descends (.refl _)⟩
  obtain ⟨hentries, hselect⟩ := caches_transparent reachable_selected
  exact ⟨reachable_selected, hcalls, by decide +kernel, hentries, hselect hidden (.ref ⟨1⟩) hcalls⟩

end HiddenMethod

end ClassEngine.Machine
