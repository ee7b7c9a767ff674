import ClassEngine.Proofs.Machine.Hierarchy
import ClassEngine.Proofs.Machine.Resolution

/-!
# Outcomes of pool entries are final

Once an entry has been resolved, resolving it again has the same outcome and
changes nothing, whatever the machine has done meanwhile.
-/

namespace ClassEngine.Machine

namespace Exec

theorem load_again {src src' : Search.Source} {name : String} {reg reg' : Registry}
    (h : (load src [] name reg).2.Grows reg') :
    load src' [] name reg' = ((load src [] name reg).1, reg') := by
  have hloads := Registry.load_loads src [] name reg
  generalize load src [] name reg = result at h hloads
  obtain ⟨outcome, reg₁⟩ := result
  rw [load]
  cases outcome with
  | ok id => simp only [h.find? (hloads.found rfl)]
  | error e =>
      obtain ⟨hfind, hfailure⟩ := hloads.refused rfl (by simp)
      obtain ⟨hfind', hfailure'⟩ := h.failures hfind hfailure
      simp only [hfind', hfailure']

theorem attempt_congr {α : Type} {x y : Exec α} {vm : Vm} (h : x vm = y vm) :
    attempt x vm = attempt y vm := by
  rw [attempt_apply, attempt_apply, h]

theorem attempt_bind_of_ok {α β : Type} {x : Exec α} {f : α → Exec β} {vm vm' : Vm} {a : α}
    (h : x vm = .ok a vm') : attempt (x >>= f) vm = attempt (f a) vm' := by
  rw [attempt_apply, attempt_apply, bind_apply, h]

theorem attempt_bind_of_error {α β : Type} {x : Exec α} {f : α → Exec β} {vm vm' : Vm}
    {stop : Stop} (h : x vm = .error stop vm') :
    attempt (x >>= f) vm = attempt (throw stop) vm' := by
  rw [attempt_apply, attempt_apply, bind_apply, h]
  rfl

theorem attempt_ofExcept {α : Type} (e : Except Fault α) (vm : Vm) :
    attempt (ofExcept e) vm = .ok e vm := by
  cases e <;> rfl

theorem attempt_followClass_apply (id : ClassId) (index : UInt16) {vm : Vm} {c : Class}
    (hc : vm.registry.classes[id]? = some c) :
    attempt (followClass id index) vm =
      match c.pool.className index with
      | .error cause => .ok (.error (.badConstant cause)) vm
      | .ok name =>
        .ok ((load vm.source [] name vm.registry).1.map .classRef)
          { vm with registry := (load vm.source [] name vm.registry).2 } := by
  unfold followClass
  rw [attempt_bind_of_ok (classAt_apply_of_some hc)]
  dsimp only
  generalize c.pool.className index = name?
  cases name? with
  | error cause =>
      have hentry : (entry (.error cause) : Exec String) vm =
          .error (.fault (.badConstant cause)) vm := rfl
      rw [attempt_bind_of_error hentry]
      rfl
  | ok name =>
      have hentry : entry (.ok name) vm = .ok name vm := rfl
      rw [attempt_bind_of_ok hentry]
      generalize hload : load vm.source [] name vm.registry = result
      obtain ⟨outcome, registry⟩ := result
      cases outcome with
      | ok target =>
          rw [attempt_bind_of_ok (by rw [loadClass_apply, hload])]
          simp only [hload]
          rfl
      | error e =>
          rw [attempt_bind_of_error (by rw [loadClass_apply, hload])]
          simp only [hload]
          rfl

theorem followMethod_of_found {vm : Vm} {id owner : ClassId} {index : UInt16}
    {tags : List ClassFile.Tag} {c d : Class} {ref : ClassFile.Member} {m : Method}
    (hc : vm.registry.classes[id]? = some c) (href : c.pool.member index tags = .ok ref)
    (howner : vm.registry.find? ref.owner = some owner)
    (hd : vm.registry.classes[owner]? = some d)
    (hkind : decide (ref.kind = .interfaceMethod) = d.isInterface)
    (hm : vm.registry.classes.findMethod? owner ref.name ref.descriptor = some m) :
    followMethod id index tags vm = .ok (.method m) vm := by
  have hentry : entry (c.pool.member index tags) vm = .ok ref vm := by
    rw [href]
    rfl
  have hload : loadClass ref.owner vm = .ok owner vm := loadClass_of_found howner
  rw [followMethod, bind_of_ok (classAt_apply_of_some hc), bind_of_ok hentry, bind_of_ok hload,
    bind_of_ok (classAt_apply_of_some hd), if_neg (not_not.mpr hkind), bind_of_ok (get_apply vm),
    hm]
  rfl

theorem resolveMethod_of_followed {vm vm' vm'' : Vm} {id : ClassId} {index : UInt16} {m : Method}
    {s : ClassStatus} (hs : vm.registry.status? id = some s)
    (hnothing : kept s index .method = .nothing)
    (hfollow : followMethod id index [.methodRef, .interfaceMethodRef] vm = .ok (.method m) vm')
    (hkeep : keep id index .method (.ok (.method m)) vm' = .ok () vm'') :
    resolveMethod id index vm = .ok m vm'' := by
  have hattempt : attempt (followMethod id index [.methodRef, .interfaceMethodRef]) vm =
      .ok (.ok (.method m)) vm' := by
    rw [attempt_apply, hfollow]
  have hresolve : resolve id index .method
      (followMethod id index [.methodRef, .interfaceMethodRef]) vm = .ok (.method m) vm'' := by
    rw [resolve_apply, hs]
    simp only [hnothing]
    rw [bind_of_ok hattempt, bind_of_ok hkeep]
    rfl
  rw [resolveMethod, bind_of_ok hresolve]
  rfl

/-- Done again, in a machine that has grown since, the operation has the same outcome and
changes nothing.  `P` is what it takes of the registry. -/
structure Repeatable {α : Type} (P : Registry → Prop) (x : Exec α) : Prop where
  isLocal : Local x
  again : ∀ {vm vm' vm'' : Vm} {outcome : Except Fault α}, P vm'.registry →
    attempt x vm = .ok outcome vm' → vm'.registry.Grows vm''.registry →
    attempt x vm'' = .ok outcome vm''

/-- What holds of a registry also holds of those it has grown from. -/
def Lasting (P : Registry → Prop) : Prop :=
  ∀ ⦃reg reg' : Registry⦄, reg.Grows reg' → P reg' → P reg

theorem lasting_true : Lasting fun _ => True := fun _ _ _ _ => trivial

section

variable {α β : Type} {P : Registry → Prop}

theorem repeatable_pure (a : α) : Repeatable P (pure a : Exec α) where
  isLocal := local_pure a
  again := by
    rintro vm vm' vm'' outcome - ⟨⟩ -
    rfl

theorem repeatable_fault (e : Fault) (he : e.isCovered = true) :
    Repeatable P (fault e : Exec α) where
  isLocal := local_fault e he
  again := by
    rintro vm vm' vm'' outcome - ⟨⟩ -
    rfl

theorem repeatable_undefined : Repeatable P (throw .undefined : Exec α) where
  isLocal := local_undefined
  again := nofun

theorem repeatable_entry (e : Except ClassFile.PoolError α) : Repeatable P (entry e) := by
  cases e with
  | ok a => exact repeatable_pure a
  | error cause => exact repeatable_fault (.badConstant cause) rfl

theorem attempt_bind_again {x : Exec α} {f : α → Exec β} {vm vm' vm'' : Vm}
    {outcome : Except Fault β}
    (hok : ∀ {a vm₁}, attempt x vm = .ok (.ok a) vm₁ → attempt (f a) vm₁ = .ok outcome vm' →
      attempt x vm'' = .ok (.ok a) vm'' ∧ attempt (f a) vm'' = .ok outcome vm'')
    (herror : ∀ {e}, attempt x vm = .ok (.error e) vm' → attempt x vm'' = .ok (.error e) vm'')
    (h : attempt (x >>= f) vm = .ok outcome vm') :
    attempt (x >>= f) vm'' = .ok outcome vm'' := by
  cases hcase : x vm with
  | ok a vm₁ =>
      rw [attempt_bind_of_ok hcase] at h
      have hfirst : attempt x vm = .ok (.ok a) vm₁ := by rw [attempt_apply, hcase]
      obtain ⟨hagain, hnext⟩ := hok hfirst h
      rwa [attempt_bind_of_ok (ok_of_attempt hagain)]
  | error stop vm₁ =>
      rw [attempt_bind_of_error hcase] at h
      cases stop with
      | fault e =>
          cases h
          have hfirst : attempt x vm = .ok (.error e) vm' := by rw [attempt_apply, hcase]
          rw [attempt_bind_of_error (fault_of_attempt (herror hfirst))]
          rfl
      | _ => cases h

theorem Repeatable.bind (hP : Lasting P) {x : Exec α} {f : α → Exec β} (hx : Repeatable P x)
    (hf : ∀ a, Repeatable P (f a)) : Repeatable P (x >>= f) where
  isLocal := hx.isLocal.bind fun a => (hf a).isLocal
  again := by
    intro vm vm' vm'' outcome hvm' h hgrows
    refine attempt_bind_again (fun {a vm₁} hfirst hnext => ?_)
      (fun hfirst => hx.again hvm' hfirst hgrows) h
    have hgrows₁ : vm₁.registry.Grows vm'.registry :=
      grows_of_changes ((hf a).isLocal.attempt.ok hnext).1
    exact ⟨hx.again (hP hgrows₁ hvm') hfirst (hgrows₁.trans hgrows), (hf a).again hvm' hnext hgrows⟩

theorem repeatable_classAt (id : ClassId) : Repeatable P (classAt id) where
  isLocal := local_classAt id
  again := by
    intro vm vm' vm'' outcome _ h hgrows
    rw [attempt_apply, classAt_apply] at h
    cases hc : vm.registry.classes[id]? with
    | none =>
        rw [hc] at h
        cases h
    | some c =>
        rw [hc] at h
        cases h
        rw [attempt_apply, classAt_apply_of_some (hgrows.classes hc)]

theorem repeatable_loadClass (name : String) : Repeatable P (loadClass name) where
  isLocal := local_loadClass name
  again := by
    intro vm vm' vm'' outcome _ h hgrows
    rw [attempt_apply, loadClass_apply] at h
    have hloaded : (load vm.source [] name vm.registry).2 = vm'.registry ∧
        (load vm.source [] name vm.registry).1 = outcome := by
      generalize load vm.source [] name vm.registry = result at h
      obtain ⟨outcome', registry⟩ := result
      cases outcome' <;> cases h <;> exact ⟨rfl, rfl⟩
    obtain ⟨hregistry, houtcome⟩ := hloaded
    rw [attempt_apply, loadClass_apply, load_again (hregistry ▸ hgrows), houtcome]
    cases outcome <;> rfl

theorem repeatable_followClass (hP : Lasting P) (id : ClassId) (index : UInt16) :
    Repeatable P (followClass id index) :=
  .bind hP (repeatable_classAt id) fun _ => .bind hP (repeatable_entry _) fun name =>
    .bind hP (repeatable_loadClass name) fun _ => repeatable_pure _

end

/-- Only an entry without an outcome gets another one. -/
theorem kept_of_grows {s t : ClassStatus} (h : s.Grows t) {index : UInt16} {use : PoolUse}
    (hkept : kept s index use ≠ .nothing) : kept t index use = kept s index use := by
  unfold kept at hkept ⊢
  cases hs : s.resolutions[index.toNat]? with
  | none =>
      have hsize : t.resolutions[index.toNat]? = none := by
        rw [Array.getElem?_eq_none_iff] at hs ⊢
        exact h.1 ▸ hs
      rw [hsize]
  | some r? =>
      cases r? with
      | none => simp [hs] at hkept
      | some r => rw [h.2 hs]

theorem resolve_first {id : ClassId} {index : UInt16} {use : PoolUse} {follow : Exec Resolved}
    (hfollow : Follows use follow) {vm vm' : Vm} {s : ClassStatus}
    {outcome : Except Fault Resolved} (hs : vm.registry.status? id = some s)
    (hkept : kept s index use = .nothing)
    (h : attempt (resolve id index use follow) vm = .ok outcome vm') :
    ∃ t, vm'.registry.status? id = some t ∧ kept t index use = .outcome outcome := by
  have hfirst : resolve id index use follow vm =
      (do
        let outcome ← attempt follow
        keep id index use outcome
        ofExcept outcome : Exec Resolved) vm := by
    simp only [resolve_apply, hs, hkept]
  rw [attempt_congr hfirst] at h
  cases hcase : attempt follow vm with
  | error stop vm₁ =>
      rw [attempt_bind_of_error hcase] at h
      cases stop with
      | fault e => exact absurd hcase attempt_ne_fault
      | _ => cases h
  | ok o vm₁ =>
      have hkeep : keep id index use o vm₁ = .ok () (after (keep id index use o) vm₁) := rfl
      rw [attempt_bind_of_ok hcase, attempt_bind_of_ok hkeep, attempt_ofExcept] at h
      cases h
      have hs₁ := (hfollow.fetches.attempt.ok hcase).2.statuses hs
      have hlt := (Array.getElem?_eq_some_iff.mp (kept_nothing hkept)).1
      refine ⟨{ s with
        resolutions := s.resolutions.setIfInBounds index.toNat (some ⟨use, outcome⟩) }, ?_, ?_⟩
      · show (vm₁.registry.modifyStatus id _).status? id = _
        rw [Registry.status?_modifyStatus, if_pos rfl, hs₁, Option.map_some]
      · simp [kept, hlt]

theorem resolve_again_of {id : ClassId} {index : UInt16} {use : PoolUse} {follow : Exec Resolved}
    (hfollow : Follows use follow) {vm vm' vm'' : Vm} {outcome : Except Fault Resolved}
    (hagain : attempt follow vm = .ok outcome vm' → attempt follow vm'' = .ok outcome vm'')
    (h : attempt (resolve id index use follow) vm = .ok outcome vm')
    (hgrows : vm'.registry.Grows vm''.registry) :
    attempt (resolve id index use follow) vm'' = .ok outcome vm'' := by
  have hchanges : vm.registry.Grows vm'.registry :=
    grows_of_changes ((local_resolve hfollow).attempt.ok h).1
  cases hs : vm.registry.status? id with
  | none =>
      rw [attempt_apply, resolve_apply, hs] at h
      cases h
  | some s =>
      obtain ⟨t, ht, hst⟩ := (hchanges.trans hgrows).statuses hs
      cases hkept : kept s index use with
      | outcome o =>
          have hkept' : kept t index use = .outcome o :=
            (kept_of_grows hst (by simp [hkept])).trans hkept
          have hbefore : resolve id index use follow vm = ofExcept o vm := by
            simp only [resolve_apply, hs, hkept]
          have hafter : resolve id index use follow vm'' = ofExcept o vm'' := by
            simp only [resolve_apply, ht, hkept']
          rw [attempt_congr hbefore, attempt_ofExcept] at h
          cases h
          rw [attempt_congr hafter, attempt_ofExcept]
      | otherUse =>
          have hkept' : kept t index use = .otherUse :=
            (kept_of_grows hst (by simp [hkept])).trans hkept
          have hbefore : resolve id index use follow vm = follow vm := by
            simp only [resolve_apply, hs, hkept]
          have hafter : resolve id index use follow vm'' = follow vm'' := by
            simp only [resolve_apply, ht, hkept']
          rw [attempt_congr hbefore] at h
          rw [attempt_congr hafter]
          exact hagain h
      | nothing =>
          obtain ⟨t', ht', hkept'⟩ := resolve_first hfollow hs hkept h
          obtain ⟨u, hu, htu⟩ := hgrows.statuses ht'
          have hkept'' : kept u index use = .outcome outcome :=
            (kept_of_grows htu (by simp [hkept'])).trans hkept'
          have hafter : resolve id index use follow vm'' = ofExcept outcome vm'' := by
            simp only [resolve_apply, hu, hkept'']
          rw [attempt_congr hafter, attempt_ofExcept]

theorem resolve_again {P : Registry → Prop} {id : ClassId} {index : UInt16} {use : PoolUse}
    {follow : Exec Resolved} (hfollow : Follows use follow) (hrepeat : Repeatable P follow) :
    Repeatable P (resolve id index use follow) where
  isLocal := local_resolve hfollow
  again hvm' h hgrows :=
    resolve_again_of hfollow (fun hfirst => hrepeat.again hvm' hfirst hgrows) h hgrows

/-! ## Entries for classes -/

theorem resolveClass_again {id : ClassId} {index : UInt16} {vm vm' vm'' : Vm}
    {outcome : Except Fault ClassId} (h : attempt (resolveClass id index) vm = .ok outcome vm')
    (hgrows : vm'.registry.Grows vm''.registry) :
    attempt (resolveClass id index) vm'' = .ok outcome vm'' := by
  have hresolve : Repeatable (fun _ => True) (resolve id index .classRef (followClass id index)) :=
    resolve_again (follows_followClass id index) (repeatable_followClass lasting_true id index)
  have hagain : Repeatable (fun _ => True) (resolveClass id index) := by
    refine .bind lasting_true hresolve fun r => ?_
    cases r with
    | classRef c => exact repeatable_pure c
    | _ => exact repeatable_undefined
  exact hagain.again trivial h hgrows

/-! ## Entries for methods -/

/-- Superinterfaces have smaller numbers. -/
def Descends (reg : Registry) : Prop := Classes.Descending reg.classes

theorem lasting_descends : Lasting Descends := by
  intro reg reg' hgrows hreg' id i hi
  have hid := Classes.lt_of_mem_interfaces hi
  rw [← hgrows.continues.interfaces hid] at hi
  exact hreg' hi

theorem repeatable_findMethod (kind : ClassFile.MemberKind) (owner : ClassId)
    (name descriptor text : String) :
    Repeatable Descends (do
      let c ← classAt owner
      if decide (kind = .interfaceMethod) ≠ c.isInterface then fault (.incompatible text)
      else
        match (← get).registry.classes.findMethod? owner name descriptor with
        | some m => return .method m
        | none => fault (.noSuchMethod text) : Exec Resolved) := by
  constructor
  · refine (local_classAt owner).bind fun c => ?_
    split
    · exact local_fault _ rfl
    · refine local_get.bind fun vm => ?_
      cases vm.registry.classes.findMethod? owner name descriptor with
      | some m => exact local_pure _
      | none => exact local_fault _ rfl
  · intro vm vm' vm'' outcome hvm' h hgrows
    cases hc : vm.registry.classes[owner]? with
    | none =>
        rw [attempt_bind_of_error (classAt_apply_of_none hc)] at h
        cases h
    | some c =>
        rw [attempt_bind_of_ok (classAt_apply_of_some hc)] at h
        by_cases hkind : decide (kind = .interfaceMethod) ≠ c.isInterface
        · rw [if_pos hkind] at h
          cases h
          rw [attempt_bind_of_ok (classAt_apply_of_some (hgrows.classes hc)), if_pos hkind]
          rfl
        · rw [if_neg hkind, attempt_bind_of_ok (get_apply vm)] at h
          cases hm : vm.registry.classes.findMethod? owner name descriptor with
          | some m | none =>
              rw [hm] at h
              cases h
              have howner : owner < vm.registry.classes.size := (Array.getElem?_eq_some_iff.mp hc).1
              have hsame := hgrows.continues.findMethod? hvm' howner name descriptor
              rw [attempt_bind_of_ok (classAt_apply_of_some (hgrows.classes hc)), if_neg hkind,
                attempt_bind_of_ok (get_apply vm''), hsame, hm]
              rfl

theorem repeatable_followMethod (id : ClassId) (index : UInt16) (tags : List ClassFile.Tag) :
    Repeatable Descends (followMethod id index tags) :=
  .bind lasting_descends (repeatable_classAt id) fun _ =>
    .bind lasting_descends (repeatable_entry _) fun ref =>
      .bind lasting_descends (repeatable_loadClass ref.owner) fun owner =>
        repeatable_findMethod ref.kind owner ref.name ref.descriptor ref.render

theorem repeatable_resolveFor {use : PoolUse} (huse : use = .method ∨ use = .interfaceMethod)
    (id : ClassId) (index : UInt16) (tags : List ClassFile.Tag) :
    Repeatable Descends (do
      match ← resolve id index use (followMethod id index tags) with
      | .method m => return m
      | _ => throw .undefined : Exec Method) := by
  have hresolve : Repeatable Descends (resolve id index use (followMethod id index tags)) :=
    resolve_again (follows_followMethod id index tags huse) (repeatable_followMethod id index tags)
  refine .bind lasting_descends hresolve fun r => ?_
  cases r with
  | method m => exact repeatable_pure m
  | _ => exact repeatable_undefined

theorem repeatable_resolveMethod (id : ClassId) (index : UInt16) :
    Repeatable Descends (resolveMethod id index) :=
  repeatable_resolveFor (.inl rfl) id index _

theorem repeatable_resolveInterfaceMethod (id : ClassId) (index : UInt16) :
    Repeatable Descends (resolveInterfaceMethod id index) :=
  repeatable_resolveFor (.inr rfl) id index _

theorem followClass_total {vm : Vm} {id : ClassId} (hid : id < vm.registry.classes.size)
    (index : UInt16) :
    ∃ outcome registry, attempt (followClass id index) vm = .ok outcome { vm with registry } ∧
      (Resolution.mk .classRef outcome).Sound registry := by
  have hsound {outcome : Except Fault Resolved} {registry : Registry}
      (h : attempt (followClass id index) vm = .ok outcome { vm with registry }) :
      (Resolution.mk .classRef outcome).Sound registry := by
    cases outcome with
    | error e => trivial
    | ok r => exact (follows_followClass id index).sound _ _ _ (ok_of_attempt h)
  have happly := attempt_followClass_apply id index (Array.getElem?_eq_getElem hid)
  split at happly
  · exact ⟨_, vm.registry, happly, hsound happly⟩
  · exact ⟨_, _, happly, hsound happly⟩

theorem resolve_total {vm : Vm} {id : ClassId} (hw : vm.registry.WellFormed)
    (hid : id < vm.registry.classes.size) (index : UInt16) :
    ∃ outcome registry,
      attempt (resolve id index .classRef (followClass id index)) vm =
        .ok outcome { vm with registry } ∧
      (Resolution.mk .classRef outcome).Sound registry := by
  obtain ⟨s, hs⟩ := hw.status_of_lt hid
  cases hkept : kept s index .classRef with
  | outcome o =>
      have happly : resolve id index .classRef (followClass id index) vm = ofExcept o vm := by
        simp only [resolve_apply, hs, hkept]
      refine ⟨o, vm.registry, by rw [attempt_congr happly, attempt_ofExcept], ?_⟩
      unfold kept at hkept
      split at hkept
      · cases hkept
      · cases hkept
      · rename_i r hr
        split at hkept
        · rename_i huse
          cases hkept
          exact huse ▸ hw.kept hs hr
        · cases hkept
  | otherUse =>
      have happly : resolve id index .classRef (followClass id index) vm =
          followClass id index vm := by
        simp only [resolve_apply, hs, hkept]
      rw [attempt_congr happly]
      exact followClass_total hid index
  | nothing =>
      obtain ⟨o, registry, hfollow, hsound⟩ := followClass_total hid index
      have happly : resolve id index .classRef (followClass id index) vm =
          (do
            let outcome ← attempt (followClass id index)
            keep id index .classRef outcome
            ofExcept outcome : Exec Resolved) vm := by
        simp only [resolve_apply, hs, hkept]
      refine ⟨o, registry.modifyStatus id fun s =>
        { s with
          resolutions := s.resolutions.setIfInBounds index.toNat (some ⟨.classRef, o⟩) },
        ?_, hsound⟩
      rw [attempt_congr happly, attempt_bind_of_ok hfollow]
      exact attempt_ofExcept o _

theorem resolveClass_total {vm : Vm} {id : ClassId} (hw : vm.registry.WellFormed)
    (hid : id < vm.registry.classes.size) (index : UInt16) :
    ∃ outcome registry, attempt (resolveClass id index) vm = .ok outcome { vm with registry } ∧
      ∀ target, outcome = .ok target → target < registry.classes.size := by
  obtain ⟨outcome, registry, h, hsound⟩ := resolve_total hw hid index
  unfold resolveClass
  cases outcome with
  | error e =>
      refine ⟨.error e, registry, ?_, nofun⟩
      rw [attempt_bind_of_error (fault_of_attempt h)]
      rfl
  | ok r =>
      cases r with
      | classRef target =>
          refine ⟨.ok target, registry, ?_, ?_⟩
          · rw [attempt_bind_of_ok (ok_of_attempt h)]
            rfl
          · rintro target' ⟨⟩
            exact hsound
      | _ => exact hsound.elim

end Exec

end ClassEngine.Machine
