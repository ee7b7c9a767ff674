import ClassEngine.Machine.Resolution
import ClassEngine.Proofs.Machine.Operations

/-!
# What resolution does

Following an entry of a pool does no more to the registry than to load classes.
The outcome is then kept for the first time, and it fits the use.
-/

namespace ClassEngine.Machine

namespace Exec

variable {α : Type}

def fetching : Effect := fun a o b => quietChanges a o b ∧ a.registry.Extends b.registry

/-- All the operation does to the registry is to load classes. -/
abbrev Fetches (x : Exec α) : Prop := Has fetching x

theorem Fetches.bind {β : Type} {x : Exec α} {f : α → Exec β} (hx : Fetches x)
    (hf : ∀ a, Fetches (f a)) : Fetches (x >>= f) :=
  Has.bind_of_trans (fun h h' => ⟨steady_quietChanges.trans h.1 h'.1, h.2.trans h'.2⟩) hx hf

theorem Fetches.isLocal {x : Exec α} (hx : Fetches x) : Local x :=
  fun vm => (hx vm).1

theorem Fetches.attempt {x : Exec α} (hx : Fetches x) : Fetches (attempt x) :=
  (Has.attempt hx fun h => ⟨quietChanges_none h.1, h.2⟩).of_faultless

theorem Local.fetches {x : Exec α} (hx : Local x)
    (h : ∀ vm, (after x vm).registry = vm.registry) : Fetches x := by
  intro vm
  refine ⟨hx vm, ?_⟩
  rw [h]
  exact .refl _

theorem Reads.fetches {x : Exec α} (hx : Reads x) : Fetches x :=
  hx.isLocal.fetches fun vm => congrArg Vm.registry (hx vm).1

theorem fetches_pure (a : α) : Fetches (pure a : Exec α) := (reads_pure a).fetches

theorem fetches_fault (e : Fault) (he : e.isCovered = true) : Fetches (fault e : Exec α) :=
  (reads_fault e he).fetches

theorem fetches_get : Fetches (get : Exec Vm) := reads_get.fetches

theorem fetches_classAt (id : ClassId) : Fetches (classAt id) := (reads_classAt id).fetches

theorem fetches_loadClass (name : String) : Fetches (loadClass name) := by
  intro vm
  refine ⟨local_loadClass name vm, ?_⟩
  rw [after_loadClass]
  exact (Registry.load_loads vm.source [] name vm.registry).nested.extension

theorem fetches_intern (text : String) : Fetches (intern text) :=
  (fetches_loadClass _).bind fun id => (fetches_classAt id).bind fun _ =>
    (local_modifyGet (fun vm => .heap vm _) fun _ => rfl).fetches fun _ => rfl

theorem fetches_entry (e : Except ClassFile.PoolError α) : Fetches (entry e) := by
  cases e with
  | ok a => exact fetches_pure a
  | error e => exact fetches_fault _ rfl

def Returns (P : α → Vm → Prop) (x : Exec α) : Prop :=
  ∀ vm a vm', x vm = .ok a vm' → P a vm'

theorem Returns.bind {β : Type} {P : β → Vm → Prop} {x : Exec α} {f : α → Exec β}
    (hf : ∀ a, Returns P (f a)) : Returns P (x >>= f) := by
  intro vm b vm' h
  obtain ⟨a, vm₁, -, h₂⟩ := bind_eq_ok h
  exact hf a _ _ _ h₂

theorem returns_pure {P : α → Vm → Prop} {a : α} (h : ∀ vm, P a vm) :
    Returns P (pure a : Exec α) := by
  intro vm a' vm' h'
  cases h'
  exact h vm

theorem returns_fault {P : α → Vm → Prop} (e : Fault) : Returns P (fault e : Exec α) := by
  intro vm a vm' h
  cases h

theorem loadClass_lt (name : String) :
    Returns (fun id vm => id < vm.registry.classes.size) (loadClass name) := by
  intro vm id vm' h
  exact Registry.find?_lt (find?_of_loadClass h)

structure Follows (use : PoolUse) (follow : Exec Resolved) : Prop where
  fetches : Fetches follow
  sound : Returns (fun r vm => (Resolution.mk use (.ok r)).Sound vm.registry) follow

theorem Follows.bind {β : Type} {use : PoolUse} {x : Exec β} {f : β → Exec Resolved}
    (hx : Fetches x) (hf : ∀ b, Follows use (f b)) : Follows use (x >>= f) where
  fetches := hx.bind fun b => (hf b).fetches
  sound := Returns.bind fun b => (hf b).sound

theorem follows_pure {use : PoolUse} {r : Resolved}
    (h : ∀ reg, (Resolution.mk use (.ok r)).Sound reg) : Follows use (pure r) where
  fetches := fetches_pure r
  sound := returns_pure fun vm => h vm.registry

theorem follows_fault {use : PoolUse} (e : Fault) (he : e.isCovered = true) :
    Follows use (fault e) where
  fetches := fetches_fault e he
  sound := returns_fault e

theorem follows_followClass (id : ClassId) (index : UInt16) :
    Follows .classRef (followClass id index) := by
  refine .bind (fetches_classAt id) fun c => .bind (fetches_entry _) fun name => ?_
  constructor
  · exact (fetches_loadClass name).bind fun _ => fetches_pure _
  · intro vm r vm' h
    obtain ⟨target, vm₁, h₁, h₂⟩ := bind_eq_ok h
    cases h₂
    exact loadClass_lt name _ _ _ h₁

theorem follows_followField (id : ClassId) (index : UInt16) :
    Follows .field (followField id index) := by
  refine .bind (fetches_classAt id) fun c => .bind (fetches_entry _) fun ref => ?_
  refine .bind (fetches_loadClass _) fun owner => .bind fetches_get fun vm => ?_
  cases vm.registry.classes.findField? ref.name ref.descriptor owner with
  | none => exact follows_fault _ rfl
  | some f => exact follows_pure fun _ => trivial

theorem follows_followMethod (id : ClassId) (index : UInt16) (tags : List ClassFile.Tag)
    {use : PoolUse} (huse : use = .method ∨ use = .interfaceMethod) :
    Follows use (followMethod id index tags) := by
  refine .bind (fetches_classAt id) fun _ => .bind (fetches_entry _) fun ref => ?_
  refine .bind (fetches_loadClass _) fun owner => .bind (fetches_classAt owner) fun c => ?_
  split
  · exact follows_fault _ rfl
  · refine .bind fetches_get fun vm => ?_
    cases vm.registry.classes.findMethod? owner ref.name ref.descriptor with
    | none => exact follows_fault _ rfl
    | some m =>
        refine follows_pure fun _ => ?_
        rcases huse with rfl | rfl <;> trivial

theorem follows_followLiteral (id : ClassId) (index : UInt16) :
    Follows .literal (followLiteral id index) := by
  refine .bind (fetches_classAt id) fun _ => .bind (fetches_entry _) fun constant => ?_
  cases constant with
  | integer v | float v | long v | double v => exact follows_pure fun _ => trivial
  | string i =>
      refine .bind (fetches_entry _) fun text => .bind (fetches_intern text) fun r => ?_
      exact follows_pure fun _ => trivial
  | _ => exact follows_fault _ rfl

section

variable {id : ClassId} {index : UInt16} {use : PoolUse} {follow : Exec Resolved} {vm vm' : Vm}
  {s : ClassStatus} {outcome : Except Fault Resolved}

theorem Follows.unresolved (h : Follows use follow) (hs : vm.registry.status? id = some s)
    (hnone : s.resolutions[index.toNat]? = some none)
    (hfollow : attempt follow vm = .ok outcome vm') : vm'.registry.Unresolved id index := by
  have hextends : vm.registry.Extends vm'.registry := (h.fetches.attempt.ok hfollow).2
  intro t r ht hr
  rw [hextends.statuses hs] at ht
  cases ht
  rw [hnone] at hr
  cases hr

theorem Follows.sound_attempt (h : Follows use follow)
    (hfollow : attempt follow vm = .ok outcome vm') :
    (Resolution.mk use outcome).Sound vm'.registry := by
  cases outcome with
  | error e => cases use <;> trivial
  | ok r => exact h.sound _ _ _ (ok_of_attempt hfollow)

theorem change_keep (h : Follows use follow) (hs : vm.registry.status? id = some s)
    (hnone : s.resolutions[index.toNat]? = some none)
    (hfollow : attempt follow vm = .ok outcome vm') :
    Change vm' (after (keep id index use outcome) vm') :=
  .keep vm' id index _ (h.unresolved hs hnone hfollow) (h.sound_attempt hfollow)

end

theorem resolve_apply (id : ClassId) (index : UInt16) (use : PoolUse) (follow : Exec Resolved)
    (vm : Vm) :
    resolve id index use follow vm =
      match vm.registry.status? id with
      | none => .error .undefined vm
      | some s =>
        match kept s index use with
        | .outcome o => ofExcept o vm
        | .otherUse => follow vm
        | .nothing =>
          (do
            let outcome ← attempt follow
            keep id index use outcome
            ofExcept outcome : Exec Resolved) vm := by
  unfold resolve
  rw [bind_apply, statusAt_apply]
  cases vm.registry.status? id with
  | none => rfl
  | some s =>
      dsimp only
      cases kept s index use <;> rfl

theorem kept_nothing {s : ClassStatus} {index : UInt16} {use : PoolUse}
    (h : kept s index use = .nothing) : s.resolutions[index.toNat]? = some none := by
  unfold kept at h
  split at h
  · cases h
  · assumption
  · split at h <;> cases h

theorem kept_outcome {s : ClassStatus} {index : UInt16} {use : PoolUse}
    {o : Except Fault Resolved} (h : kept s index use = .outcome o) :
    s.resolutions[index.toNat]? = some (some ⟨use, o⟩) := by
  unfold kept at h
  split at h
  · cases h
  · cases h
  · rename_i r hr
    split at h <;> cases h
    rename_i huse
    rw [hr, ← huse]

/-- An entry is resolved to what was kept for it, or to what following it leads to. -/
theorem resolve_eq_ok {id : ClassId} {index : UInt16} {use : PoolUse} {follow : Exec Resolved}
    {vm vm' : Vm} {r : Resolved} (h : resolve id index use follow vm = .ok r vm') :
    (∃ s, vm.registry.status? id = some s ∧
        s.resolutions[index.toNat]? = some (some ⟨use, .ok r⟩) ∧ vm' = vm) ∨
      ∃ vm₁, follow vm = .ok r vm₁ ∧ vm'.registry.classes = vm₁.registry.classes ∧
        vm'.heap = vm₁.heap := by
  rw [resolve_apply] at h
  cases hs : vm.registry.status? id with
  | none =>
      rw [hs] at h
      cases h
  | some s =>
      rw [hs] at h
      dsimp only at h
      cases hkept : kept s index use with
      | outcome o =>
          rw [hkept] at h
          cases o <;> cases h
          exact .inl ⟨s, rfl, kept_outcome hkept, rfl⟩
      | otherUse =>
          rw [hkept] at h
          exact .inr ⟨vm', h, rfl, rfl⟩
      | nothing =>
          rw [hkept] at h
          obtain ⟨o, vm₁, ho, h⟩ := bind_eq_ok h
          obtain ⟨_, vm₂, hkeep, h⟩ := bind_eq_ok h
          cases hkeep
          cases o <;> cases h
          exact .inr ⟨vm₁, ok_of_attempt ho, rfl, rfl⟩

theorem covered_of_kept {reg : Registry} (h : reg.Covered) {id : ClassId} {s : ClassStatus}
    {index : UInt16} {use : PoolUse} {e : Fault} (hs : reg.status? id = some s)
    (hkept : kept s index use = .outcome (.error e)) : e.isCovered = true :=
  h.kept hs (kept_outcome hkept)

theorem covered_keep {reg : Registry} (h : reg.Covered) (id : ClassId) (index : UInt16)
    (use : PoolUse) {outcome : Except Fault Resolved}
    (houtcome : ∀ e, outcome = .error e → e.isCovered = true) :
    (reg.modifyStatus id fun s =>
      { s with resolutions :=
        s.resolutions.setIfInBounds index.toNat (some ⟨use, outcome⟩) }).Covered := by
  refine h.modifyStatus id _ fun {s i use' e} hs hr => ?_
  rw [Array.getElem?_setIfInBounds] at hr
  split at hr
  · split at hr <;> cases hr
    exact houtcome e rfl
  · exact h.kept hs hr

theorem quietChanges_outcome {vm vm' : Vm} (h : quietChanges vm none vm')
    {outcome : Except Fault Resolved}
    (houtcome : vm.registry.Covered → ∀ e, outcome = .error e → e.isCovered = true) :
    quietChanges vm (stop? (ofExcept outcome) vm') (after (ofExcept outcome) vm') := by
  cases outcome with
  | ok r => exact h
  | error e =>
      refine ⟨h.1, nofun, fun hvm => ⟨(h.2.2 hvm).1, ?_⟩⟩
      rintro _ ⟨⟩
      exact houtcome hvm e rfl

theorem local_resolve {id : ClassId} {index : UInt16} {use : PoolUse} {follow : Exec Resolved}
    (h : Follows use follow) : Local (resolve id index use follow) := by
  intro vm
  unfold after stop?
  rw [resolve_apply]
  cases hs : vm.registry.status? id with
  | none => exact (reads_undefined (α := Resolved)).isLocal vm
  | some s =>
      dsimp only
      cases hkept : kept s index use with
      | outcome o =>
          refine quietChanges_outcome (steady_quietChanges.refl vm) fun hvm e he => ?_
          exact covered_of_kept hvm hs (he ▸ hkept)
      | otherUse => exact h.fetches.isLocal vm
      | nothing =>
          have hlocal : Local follow := h.fetches.isLocal
          apply ends_bind (P := quietChanges vm)
          · intro outcome vm' hfollow
            have hattempt := hlocal.attempt.ok hfollow
            have hcovered (hvm : vm.registry.Covered) (e : Fault) (he : outcome = .error e) :
                e.isCovered = true := by
              subst he
              exact ((hlocal.error (fault_of_attempt hfollow)).2.2 hvm).2 e rfl
            have hchange := change_keep h hs (kept_nothing hkept) hfollow
            have hkeep : quietChanges vm none (after (keep id index use outcome) vm') :=
              ⟨.tail hattempt.1 hchange, quiet_none, fun hvm =>
                ⟨covered_keep (hattempt.2.2 hvm).1 id index use (hcovered hvm), nofun⟩⟩
            exact quietChanges_outcome hkeep hcovered
          · exact fun stop vm' hfollow => hlocal.attempt.error hfollow

theorem local_resolveClass (id : ClassId) (index : UInt16) : Local (resolveClass id index) := by
  refine (local_resolve (follows_followClass id index)).bind fun r => ?_
  cases r with
  | classRef c => exact local_pure c
  | _ => exact local_undefined

theorem local_resolveField (id : ClassId) (index : UInt16) : Local (resolveField id index) := by
  refine (local_resolve (follows_followField id index)).bind fun r => ?_
  cases r with
  | field f => exact local_pure f
  | _ => exact local_undefined

theorem local_resolveMethod (id : ClassId) (index : UInt16) : Local (resolveMethod id index) := by
  refine (local_resolve (follows_followMethod id index _ (.inl rfl))).bind fun r => ?_
  cases r with
  | method m => exact local_pure m
  | _ => exact local_undefined

theorem local_resolveInterfaceMethod (id : ClassId) (index : UInt16) :
    Local (resolveInterfaceMethod id index) := by
  refine (local_resolve (follows_followMethod id index _ (.inr rfl))).bind fun r => ?_
  cases r with
  | method m => exact local_pure m
  | _ => exact local_undefined

theorem local_literal (id : ClassId) (index : UInt16) : Local (literal id index) := by
  refine (local_resolve (follows_followLiteral id index)).bind fun r => ?_
  cases r with
  | value v => exact local_pure v
  | _ => exact local_undefined

end Exec

end ClassEngine.Machine
