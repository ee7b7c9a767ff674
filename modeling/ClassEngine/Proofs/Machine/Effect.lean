import ClassEngine.Machine.State
import ClassEngine.Proofs.Machine.Coverage
import ClassEngine.Proofs.Machine.FrameWork
import Mathlib.Logic.Relation

/-!
# Effects of operations

An effect relates the machine before an operation, how the operation stopped if it
did not complete, and the machine afterwards.  `Change` lists the single changes of
which an instruction is made, the work of static initializers and of call-site caches
apart.  A fact about all instructions is then a fact about these changes.
-/

namespace ClassEngine.Machine

abbrev Effect := Vm → Option Stop → Vm → Prop

namespace Exec

variable {α β : Type}

def stop? (x : Exec α) (vm : Vm) : Option Stop :=
  match x vm with
  | .ok _ _ => none
  | .error stop _ => some stop

def after (x : Exec α) (vm : Vm) : Vm :=
  match x vm with
  | .ok _ vm => vm
  | .error _ vm => vm

/-- Every use of the operation has the effect. -/
def Has (K : Effect) (x : Exec α) : Prop :=
  ∀ vm, K vm (stop? x vm) (after x vm)

theorem stop?_ok {x : Exec α} {vm vm' : Vm} {a : α} (h : x vm = .ok a vm') :
    stop? x vm = none := by
  simp [stop?, h]

theorem stop?_error {x : Exec α} {vm vm' : Vm} {stop : Stop} (h : x vm = .error stop vm') :
    stop? x vm = some stop := by
  simp [stop?, h]

theorem after_ok {x : Exec α} {vm vm' : Vm} {a : α} (h : x vm = .ok a vm') :
    after x vm = vm' := by
  simp [after, h]

theorem after_error {x : Exec α} {vm vm' : Vm} {stop : Stop} (h : x vm = .error stop vm') :
    after x vm = vm' := by
  simp [after, h]

theorem Has.ok {K : Effect} {x : Exec α} (hx : Has K x) {vm vm' : Vm} {a : α}
    (h : x vm = .ok a vm') : K vm none vm' := by
  have := hx vm
  rwa [stop?_ok h, after_ok h] at this

theorem Has.error {K : Effect} {x : Exec α} (hx : Has K x) {vm vm' : Vm} {stop : Stop}
    (h : x vm = .error stop vm') : K vm (some stop) vm' := by
  have := hx vm
  rwa [stop?_error h, after_error h] at this

theorem has_of_cases {K : Effect} {x : Exec α}
    (hok : ∀ vm a vm', x vm = .ok a vm' → K vm none vm')
    (herror : ∀ vm stop vm', x vm = .error stop vm' → K vm (some stop) vm') : Has K x := by
  intro vm
  cases h : x vm with
  | ok a vm' =>
      rw [stop?_ok h, after_ok h]
      exact hok vm a vm' h
  | error stop vm' =>
      rw [stop?_error h, after_error h]
      exact herror vm stop vm' h

theorem bind_apply (x : Exec α) (f : α → Exec β) (vm : Vm) :
    (x >>= f) vm =
      match x vm with
      | .ok a vm => f a vm
      | .error stop vm => .error stop vm := by
  change EStateM.bind x f vm = _
  unfold EStateM.bind
  cases x vm <;> rfl

theorem bind_of_ok {x : Exec α} {f : α → Exec β} {vm vm' : Vm} {a : α} (h : x vm = .ok a vm') :
    (x >>= f) vm = f a vm' := by
  rw [bind_apply, h]

theorem bind_of_error {x : Exec α} {f : α → Exec β} {vm vm' : Vm} {stop : Stop}
    (h : x vm = .error stop vm') : (x >>= f) vm = .error stop vm' := by
  rw [bind_apply, h]

theorem bind_eq_ok {x : Exec α} {f : α → Exec β} {vm vm' : Vm} {b : β}
    (h : (x >>= f) vm = .ok b vm') : ∃ a vm₁, x vm = .ok a vm₁ ∧ f a vm₁ = .ok b vm' := by
  rw [bind_apply] at h
  cases hx : x vm with
  | ok a vm₁ =>
      simp only [hx] at h
      exact ⟨a, vm₁, rfl, h⟩
  | error stop vm₁ =>
      simp only [hx] at h
      cases h

theorem bind_eq_error {x : Exec α} {f : α → Exec β} {vm vm' : Vm} {stop : Stop}
    (h : (x >>= f) vm = .error stop vm') :
    x vm = .error stop vm' ∨ ∃ a vm₁, x vm = .ok a vm₁ ∧ f a vm₁ = .error stop vm' := by
  rw [bind_apply] at h
  cases hx : x vm with
  | ok a vm₁ =>
      simp only [hx] at h
      exact .inr ⟨a, vm₁, rfl, h⟩
  | error stop' vm₁ =>
      simp only [hx] at h
      cases h
      exact .inl rfl

theorem ends_bind {P : Option Stop → Vm → Prop} {x : Exec α} {f : α → Exec β} {vm : Vm}
    (hok : ∀ a vm', x vm = .ok a vm' → P (stop? (f a) vm') (after (f a) vm'))
    (herror : ∀ stop vm', x vm = .error stop vm' → P (some stop) vm') :
    P (stop? (x >>= f) vm) (after (x >>= f) vm) := by
  unfold stop? after at *
  rw [bind_apply]
  cases hcase : x vm with
  | ok a vm' => exact hok a vm' hcase
  | error stop vm' => exact herror stop vm' hcase

theorem ends_of_eq {P : Option Stop → Vm → Prop} {x y : Exec α} {vm vm' : Vm}
    (h : x vm = y vm') (hy : P (stop? y vm') (after y vm')) : P (stop? x vm) (after x vm) := by
  unfold stop? after at *
  rw [h]
  exact hy

theorem ends_bind_pure {P : Option Stop → Vm → Prop} {x : Exec α} {b : β} {vm : Vm}
    (hx : P (stop? x vm) (after x vm)) :
    P (stop? (x >>= fun _ => pure b) vm) (after (x >>= fun _ => pure b) vm) := by
  apply ends_bind
  · intro a vm' h
    rwa [stop?_ok h, after_ok h] at hx
  · intro stop vm' h
    rwa [stop?_error h, after_error h] at hx

theorem Has.bind_of_trans {K : Effect}
    (trans : ∀ {a b c : Vm} {o : Option Stop}, K a none b → K b o c → K a o c)
    {x : Exec α} {f : α → Exec β} (hx : Has K x) (hf : ∀ a, Has K (f a)) :
    Has K (x >>= f) := by
  apply has_of_cases
  · intro vm b vm' h
    obtain ⟨a, vm₁, h₁, h₂⟩ := bind_eq_ok h
    exact trans (hx.ok h₁) ((hf a).ok h₂)
  · intro vm stop vm' h
    rcases bind_eq_error h with h | ⟨a, vm₁, h₁, h₂⟩
    · exact hx.error h
    · exact trans (hx.ok h₁) ((hf a).error h₂)

end Exec

/-! ## Single changes -/

def Registry.Unresolved (reg : Registry) (id : ClassId) (index : UInt16) : Prop :=
  ∀ s r, reg.status? id = some s → s.resolutions[index.toNat]? ≠ some (some r)

inductive Change : Vm → Vm → Prop
  | heap (vm : Vm) (heap : Heap) : Change vm { vm with heap }
  | load (vm : Vm) (name : String) :
      Change vm { vm with registry := (load vm.source [] name vm.registry).2 }
  | keep (vm : Vm) (id : ClassId) (index : UInt16) (r : Resolution)
      (unresolved : vm.registry.Unresolved id index) (sound : r.Sound vm.registry) :
      Change vm { vm with
        registry := vm.registry.modifyStatus id fun s =>
          { s with resolutions := s.resolutions.setIfInBounds index.toNat (some r) } }
  | assign (vm : Vm) (f : Field) (v : Value) :
      Change vm { vm with
        registry := vm.registry.modifyStatus f.id.owner fun s =>
          { s with statics := s.statics.setIfInBounds f.slot v } }
  | profiler (vm : Vm) (profiler? : Option (Profiler MethodId)) :
      Change vm { vm with profiler? }
  | frame (vm : Vm) (f f' : Frame) (below : List Frame) (current : vm.frames = f :: below)
      (continues : f.Continues f') : Change vm { vm with frames := f' :: below }
  | enter (vm : Vm) (f : Frame) (fits : f.Fits) : Change vm { vm with frames := f :: vm.frames }

abbrev Changes : Vm → Vm → Prop := Relation.ReflTransGen Change

/-! ## The registry -/

theorem grows_of_change {a b : Vm} (h : Change a b) : a.registry.Grows b.registry := by
  cases h with
  | heap | profiler | frame | enter => exact .refl _
  | load name => exact (Registry.load_loads a.source [] name a.registry).nested.extension.grows
  | keep id index r unresolved sound =>
      refine Registry.grows_modifyStatus _ _ _ fun s hs => ⟨by simp, ?_⟩
      intro i r' hr'
      have hne : index.toNat ≠ i := by
        rintro rfl
        exact unresolved s r' hs hr'
      rw [Array.getElem?_setIfInBounds, if_neg hne]
      exact hr'
  | assign f v => exact Registry.grows_modifyStatus _ _ _ fun s _ => ⟨rfl, id⟩

theorem grows_of_changes {a b : Vm} (h : Changes a b) : a.registry.Grows b.registry := by
  induction h with
  | refl => exact .refl _
  | tail _ hchange ih => exact ih.trans (grows_of_change hchange)

theorem wellFormed_of_change {a b : Vm} (h : Change a b) (ha : a.registry.WellFormed) :
    b.registry.WellFormed := by
  cases h with
  | heap | profiler | frame | enter => exact ha
  | load name => exact (Registry.load_loads a.source [] name a.registry).nested.wellFormed ha
  | keep id index r unresolved sound =>
      refine Registry.wellFormed_modifyStatus ha _ _ fun s hs i r' hr' => ?_
      rw [Array.getElem?_setIfInBounds] at hr'
      split at hr'
      · split at hr' <;> cases hr'
        exact sound
      · exact ha.kept hs hr'
  | assign f v => exact Registry.wellFormed_modifyStatus ha _ _ fun s hs i r hr => ha.kept hs hr

theorem wellFormed_of_changes {a b : Vm} (h : Changes a b) (ha : a.registry.WellFormed) :
    b.registry.WellFormed := by
  induction h with
  | refl => exact ha
  | tail _ hchange ih => exact wellFormed_of_change hchange ih

/-! ## The frames -/

theorem continued_of_change {a b : Vm} (h : Change a b) {f : Frame} (hf : f ∈ a.frames) :
    ∃ f' ∈ b.frames, f.Continues f' := by
  cases h with
  | heap | load | keep | assign | profiler => exact ⟨f, hf, .refl f⟩
  | frame f₀ f₁ below current continues =>
      rw [current] at hf
      rcases List.mem_cons.mp hf with rfl | hf
      · exact ⟨f₁, List.mem_cons_self, continues⟩
      · exact ⟨f, List.mem_cons_of_mem f₁ hf, .refl f⟩
  | enter f₀ fits => exact ⟨f, List.mem_cons_of_mem f₀ hf, .refl f⟩

theorem continued_of_changes {a b : Vm} (h : Changes a b) {f : Frame} (hf : f ∈ a.frames) :
    ∃ f' ∈ b.frames, f.Continues f' := by
  induction h with
  | refl => exact ⟨f, hf, .refl f⟩
  | tail _ hchange ih =>
      obtain ⟨f', hf', hcontinues⟩ := ih
      obtain ⟨f'', hf'', hcontinues'⟩ := continued_of_change hchange hf'
      exact ⟨f'', hf'', hcontinues.trans hcontinues'⟩

/-! ## The journal -/

theorem journal_of_change {a b : Vm} (h : Change a b) : b.journal = a.journal := by
  cases h <;> rfl

theorem journal_of_changes {a b : Vm} (h : Changes a b) : b.journal = a.journal := by
  induction h with
  | refl => rfl
  | tail _ hchange ih => exact (journal_of_change hchange).trans ih

/-! ## The return flag -/

theorem returning_of_change {a b : Vm} (h : Change a b) : b.returning = a.returning := by
  cases h <;> rfl

theorem returning_of_changes {a b : Vm} (h : Changes a b) : b.returning = a.returning := by
  induction h with
  | refl => rfl
  | tail _ hchange ih => exact (returning_of_change hchange).trans ih

/-! ## Operations made of single changes -/

/-- The operation does not stop with an exception of the guest. -/
def Quiet (o : Option Stop) : Prop := ∀ r, o ≠ some (.thrown r)

def FaultCovered (o : Option Stop) : Prop := ∀ e, o = some (.fault e) → e.isCovered = true

/-- A covered registry stays covered, and so is the fault that the operation stops with. -/
def covers : Effect := fun a o b => a.registry.Covered → b.registry.Covered ∧ FaultCovered o

def quietChanges : Effect := fun a o b => Changes a b ∧ Quiet o ∧ covers a o b

structure Effect.Steady (K : Effect) : Prop where
  small : ∀ {a b : Vm} {o : Option Stop}, quietChanges a o b → K a o b
  trans : ∀ {a b c : Vm} {o : Option Stop}, K a none b → K b o c → K a o c

/-- The operation is made of single changes and raises no exception of the guest. -/
abbrev Exec.Local {α : Type} (x : Exec α) : Prop := Exec.Has quietChanges x

def reading : Effect := fun a o b => b = a ∧ Quiet o ∧ FaultCovered o

/-- The operation changes nothing. -/
abbrev Exec.Reads {α : Type} (x : Exec α) : Prop := Exec.Has reading x

def Effect.faultless (K : Effect) : Effect := fun a o b => K a o b ∧ ∀ e, o ≠ some (.fault e)

theorem quiet_none : Quiet none := nofun

theorem steady_quietChanges : quietChanges.Steady where
  small h := h
  trans h h' := ⟨h.1.trans h'.1, h'.2.1, fun ha => h'.2.2 (h.2.2 ha).1⟩

theorem quietChanges_of_registry {a b : Vm} {o : Option Stop} (h : Changes a b)
    (hregistry : b.registry = a.registry) (ho : Quiet o) (hfault : FaultCovered o) :
    quietChanges a o b :=
  ⟨h, ho, fun ha => ⟨hregistry ▸ ha, hfault⟩⟩

theorem Effect.Steady.refl {K : Effect} (hK : K.Steady) (vm : Vm) : K vm none vm :=
  hK.small (quietChanges_of_registry .refl rfl quiet_none nofun)

namespace Exec

variable {α β : Type} {K : Effect}

theorem Local.has (hK : K.Steady) {x : Exec α} (hx : Local x) : Has K x :=
  fun vm => hK.small (hx vm)

theorem Has.bind (hK : K.Steady) {x : Exec α} {f : α → Exec β} (hx : Has K x)
    (hf : ∀ a, Has K (f a)) : Has K (x >>= f) :=
  Has.bind_of_trans hK.trans hx hf

theorem Reads.isLocal {x : Exec α} (hx : Reads x) : Local x := by
  intro vm
  rw [(hx vm).1]
  exact quietChanges_of_registry .refl rfl (hx vm).2.1 (hx vm).2.2

theorem Reads.bind {x : Exec α} {f : α → Exec β} (hx : Reads x) (hf : ∀ a, Reads (f a)) :
    Reads (x >>= f) :=
  Has.bind_of_trans (fun h h' => ⟨h'.1.trans h.1, h'.2⟩) hx hf

theorem reads_pure (a : α) : Reads (pure a : Exec α) :=
  fun _ => ⟨rfl, nofun, nofun⟩

theorem reads_undefined : Reads (throw .undefined : Exec α) :=
  fun _ => ⟨rfl, nofun, nofun⟩

theorem reads_defect (d : Defect) : Reads (throw (.defect d) : Exec α) :=
  fun _ => ⟨rfl, nofun, nofun⟩

theorem reads_fault (e : Fault) (he : e.isCovered = true) : Reads (fault e : Exec α) := by
  refine fun _ => ⟨rfl, nofun, ?_⟩
  rintro _ ⟨⟩
  exact he

theorem reads_get : Reads (get : Exec Vm) :=
  fun _ => ⟨rfl, nofun, nofun⟩

theorem local_pure (a : α) : Local (pure a : Exec α) := (reads_pure a).isLocal

theorem local_undefined : Local (throw .undefined : Exec α) := reads_undefined.isLocal

theorem local_fault (e : Fault) (he : e.isCovered = true) : Local (fault e : Exec α) :=
  (reads_fault e he).isLocal

theorem local_get : Local (get : Exec Vm) := reads_get.isLocal

theorem local_exhausted : Local (throw .exhausted : Exec α) :=
  fun _ => quietChanges_of_registry .refl rfl nofun nofun

theorem local_modify {f : Vm → Vm} (h : ∀ vm, Change vm (f vm))
    (hregistry : ∀ vm, (f vm).registry = vm.registry) : Local (modify f : Exec Unit) :=
  fun vm => quietChanges_of_registry (.single (h vm)) (hregistry vm) nofun nofun

theorem local_modifyGet {f : Vm → α × Vm} (h : ∀ vm, Change vm (f vm).2)
    (hregistry : ∀ vm, (f vm).2.registry = vm.registry) : Local (modifyGet f : Exec α) :=
  fun vm => quietChanges_of_registry (.single (h vm)) (hregistry vm) nofun nofun

theorem Local.bind {x : Exec α} {f : α → Exec β} (hx : Local x) (hf : ∀ a, Local (f a)) :
    Local (x >>= f) :=
  Has.bind steady_quietChanges hx hf

/-- A property that values have, and sequences of operations that have it. -/
structure Sequential (P : ∀ {α : Type}, Exec α → Prop) : Prop where
  pure : ∀ {α : Type} (a : α), P (pure a)
  bind : ∀ {α β : Type} {x : Exec α} {f : α → Exec β}, P x → (∀ a, P (f a)) → P (x >>= f)

/-- A property of operations that those made of single changes have, and sequences of
operations that have it. -/
structure Compositional (P : ∀ {α : Type}, Exec α → Prop) : Prop where
  small : ∀ {α : Type} {x : Exec α}, Local x → P x
  bind : ∀ {α β : Type} {x : Exec α} {f : α → Exec β}, P x → (∀ a, P (f a)) → P (x >>= f)

theorem Compositional.sequential {P : ∀ {α : Type}, Exec α → Prop} (hP : Compositional P) :
    Sequential P where
  pure a := hP.small (local_pure a)
  bind := hP.bind

theorem compositional_has (hK : K.Steady) : Compositional (Has K) where
  small hx := hx.has hK
  bind hx hf := hx.bind hK hf

theorem Compositional.guard {P : ∀ {α : Type}, Exec α → Prop} (hP : Compositional P) {c : Prop}
    [Decidable c] (e : Fault) (he : e.isCovered = true) {x : Exec α} (hx : P x) :
    P (do
      if c then fault e
      x) := by
  dsimp only
  split
  · exact hP.bind (hP.small (local_fault e he)) fun _ => hx
  · exact hx

theorem local_guard {c : Prop} [Decidable c] (e : Fault) (he : e.isCovered = true) {x : Exec α}
    (hx : Local x) :
    Local (do
      if c then fault e
      x) :=
  (compositional_has steady_quietChanges).guard e he hx

theorem attempt_apply (x : Exec α) (vm : Vm) :
    attempt x vm =
      match x vm with
      | .ok a vm => .ok (.ok a) vm
      | .error (.fault e) vm => .ok (.error e) vm
      | .error stop vm => .error stop vm := rfl

theorem ok_of_attempt {x : Exec α} {vm vm' : Vm} {a : α}
    (h : attempt x vm = .ok (.ok a) vm') : x vm = .ok a vm' := by
  rw [attempt_apply] at h
  split at h <;> cases h
  assumption

theorem fault_of_attempt {x : Exec α} {vm vm' : Vm} {e : Fault}
    (h : attempt x vm = .ok (.error e) vm') : x vm = .error (.fault e) vm' := by
  rw [attempt_apply] at h
  split at h <;> cases h
  assumption

theorem error_of_attempt {x : Exec α} {vm vm' : Vm} {stop : Stop}
    (h : attempt x vm = .error stop vm') : x vm = .error stop vm' := by
  rw [attempt_apply] at h
  split at h <;> cases h
  assumption

theorem after_attempt (x : Exec α) (vm : Vm) : after (attempt x) vm = after x vm := by
  simp only [attempt, after]
  cases x vm with
  | ok a vm' => rfl
  | error stop vm' => cases stop <;> rfl

theorem attempt_ne_fault {x : Exec α} {vm vm' : Vm} {e : Fault} :
    attempt x vm ≠ .error (.fault e) vm' := by
  intro h
  rw [attempt_apply, error_of_attempt h] at h
  cases h

theorem Has.attempt {x : Exec α} (hx : Has K x)
    (hfault : ∀ {a b e}, K a (some (.fault e)) b → K a none b) :
    Has K.faultless (attempt x) := by
  apply has_of_cases
  · intro vm outcome vm' h
    refine ⟨?_, nofun⟩
    cases outcome with
    | ok a => exact hx.ok (ok_of_attempt h)
    | error e => exact hfault (hx.error (fault_of_attempt h))
  · intro vm stop vm' h
    refine ⟨hx.error (error_of_attempt h), ?_⟩
    rintro e ⟨⟩
    exact attempt_ne_fault h

theorem Has.of_faultless {x : Exec α} (hx : Has K.faultless x) : Has K x :=
  fun vm => (hx vm).1

/-- The operation changes nothing, and no fault ends it. -/
abbrev Looks (x : Exec α) : Prop := Has reading.faultless x

theorem Looks.bind {x : Exec α} {f : α → Exec β} (hx : Looks x) (hf : ∀ a, Looks (f a)) :
    Looks (x >>= f) :=
  Has.bind_of_trans (fun h h' => ⟨⟨h'.1.1.trans h.1.1, h'.1.2⟩, h'.2⟩) hx hf

theorem Looks.reads {x : Exec α} (hx : Looks x) : Reads x := hx.of_faultless

theorem looks_pure (a : α) : Looks (pure a : Exec α) :=
  fun vm => ⟨reads_pure a vm, nofun⟩

theorem looks_get : Looks (get : Exec Vm) :=
  fun vm => ⟨reads_get vm, nofun⟩

theorem looks_undefined : Looks (throw .undefined : Exec α) :=
  fun vm => ⟨reads_undefined vm, nofun⟩

theorem looks_attempt {x : Exec α} (hx : Reads x) : Looks (attempt x) :=
  Has.attempt hx fun h => ⟨h.1, quiet_none, nofun⟩

theorem quietChanges_none {a b : Vm} {o : Option Stop} (h : quietChanges a o b) :
    quietChanges a none b :=
  ⟨h.1, quiet_none, fun ha => ⟨(h.2.2 ha).1, nofun⟩⟩

theorem Local.attempt {x : Exec α} (hx : Local x) : Local (attempt x) :=
  (Has.attempt hx quietChanges_none).of_faultless

theorem Local.passing {x : Exec α} (hx : Local x) {f : Except Fault α → Exec β}
    (hok : ∀ a, Local (f (.ok a))) {pass : Fault → Fault}
    (herror : ∀ e, f (.error e) = fault (pass e))
    (hpass : ∀ e, e.isCovered = true → (pass e).isCovered = true) :
    Local (Exec.attempt x >>= f) := by
  intro vm
  apply ends_bind (P := quietChanges vm)
  · intro outcome vm' h
    cases outcome with
    | ok a => exact steady_quietChanges.trans (hx.ok (ok_of_attempt h)) (hok a vm')
    | error e =>
        obtain ⟨hchanges, -, hcovers⟩ := hx.error (fault_of_attempt h)
        rw [herror]
        refine ⟨hchanges, nofun, fun hvm => ⟨(hcovers hvm).1, ?_⟩⟩
        rintro _ ⟨⟩
        exact hpass e ((hcovers hvm).2 e rfl)
  · exact fun stop vm' h => hx.attempt.error h

end Exec

end ClassEngine.Machine
