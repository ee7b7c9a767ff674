import ClassEngine.Proofs.Machine.Boundaries
import ClassEngine.Proofs.Machine.Elements

/-!
# The identity of string literals

Equal literals have one object, wherever they are loaded from and whenever, and different
ones have different objects as long as there are addresses for all objects.  Objects stay
in their places and keep their text, so the object of a literal always holds its text, and
an object made for another string is none of those that were handed out before.
-/

namespace ClassEngine.Machine

namespace Heap

/-- There is an address for every object. -/
def Addressable (h : Heap) : Prop := h.objects.size < 2 ^ 32

/-- The reference is the one that was given to the object. -/
def Addresses (h : Heap) (r : Ref) (o : Object) : Prop :=
  ∃ i, h.objects[i]? = some o ∧ r = ⟨.ofNat (i + 1)⟩

/-- Every object stays in its place, of its class and with its text. -/
def Retains (h h' : Heap) : Prop :=
  ∀ (i : Nat) (o : Object), h.objects[i]? = some o →
    ∃ o', h'.objects[i]? = some o' ∧ o'.classId = o.classId ∧ o'.text = o.text

/-- The object of every literal holds its text. -/
def Stocked (h : Heap) : Prop :=
  ∀ text r, h.Interns text r → ∃ o, h.Addresses r o ∧ o.text = text

variable {h h' h'' : Heap} {cs : Classes} {w? : Option Write} {r : Ref} {o : Object}

theorem Retains.refl (h : Heap) : h.Retains h := fun _ o ho => ⟨o, ho, rfl, rfl⟩

theorem Retains.trans (hab : h.Retains h') (hbc : h'.Retains h'') : h.Retains h'' := by
  intro i o ho
  obtain ⟨o', ho', hclass, htext⟩ := hab i o ho
  obtain ⟨o'', ho'', hclass', htext'⟩ := hbc i o' ho'
  exact ⟨o'', ho'', hclass'.trans hclass, htext'.trans htext⟩

theorem retains_alloc (h : Heap) (o : Object) : h.Retains (h.alloc o).2 := by
  intro i o' ho'
  have hlt := (Array.getElem?_eq_some_iff.mp ho').1
  exact ⟨o', by rw [getElem?_alloc, if_neg (by omega), ho'], rfl, rfl⟩

theorem retains_modify (h : Heap) (r : Ref) {f : Object → Object}
    (hf : ∀ o, (f o).classId = o.classId ∧ (f o).text = o.text) : h.Retains (h.modify r f) := by
  intro i o ho
  rw [getElem?_modify, ho]
  split
  · exact ⟨f o, rfl, hf o⟩
  · exact ⟨o, rfl, rfl, rfl⟩

theorem retains_intern (h : Heap) (id : ClassId) (c : Class) (text : String) :
    h.Retains (h.intern id c text).2 := by
  unfold intern
  split
  · exact .refl h
  · exact h.retains_alloc _

theorem addresses_alloc (h : Heap) (o : Object) : (h.alloc o).2.Addresses (h.alloc o).1 o :=
  ⟨h.objects.size, by rw [getElem?_alloc, if_pos rfl], rfl⟩

theorem Addresses.mono (hr : h.Addresses r o) (hh : h.Retains h') :
    ∃ o', h'.Addresses r o' ∧ o'.text = o.text := by
  obtain ⟨i, ho, rfl⟩ := hr
  obtain ⟨o', ho', -, htext⟩ := hh i o ho
  exact ⟨o', ⟨i, ho', rfl⟩, htext⟩

theorem Addresses.get? (hr : h.Addresses r o) (hh : h.Addressable) : h.get? r = some o := by
  obtain ⟨i, ho, rfl⟩ := hr
  have hlt := (Array.getElem?_eq_some_iff.mp ho).1
  have hnat : (UInt32.ofNat (i + 1)).toNat = i + 1 :=
    UInt32.toNat_ofNat_of_lt (Nat.lt_of_le_of_lt hlt hh)
  have hne : (⟨.ofNat (i + 1)⟩ : Ref) ≠ .null := by
    intro hnull
    have haddress : (UInt32.ofNat (i + 1)).toNat = 0 := congrArg (·.address.toNat) hnull
    omega
  rw [Heap.get?, if_neg hne, hnat]
  exact ho

theorem Retains.size_le (hh : h.Retains h') : h.objects.size ≤ h'.objects.size := by
  by_contra hlt
  obtain ⟨_, ho', -⟩ := hh h'.objects.size _ (Array.getElem?_eq_getElem (by omega))
  have := (Array.getElem?_eq_some_iff.mp ho').1
  omega

theorem Retains.get? (hh : h.Retains h') (hr : h.get? r = some o) :
    ∃ o', h'.get? r = some o' ∧ o'.classId = o.classId ∧ o'.text = o.text := by
  obtain ⟨hne, ho⟩ := get?_eq_some hr
  obtain ⟨o', ho', hsame⟩ := hh _ o ho
  exact ⟨o', by rw [Heap.get?, if_neg hne, ho'], hsame⟩

theorem get?_alloc_none (hh : (h.alloc o).2.Addressable) : h.get? (h.alloc o).1 = none := by
  unfold Heap.get?
  split
  · rfl
  · have hsize : h.objects.size + 1 < 2 ^ 32 := by simpa [Addressable, alloc] using hh
    have hnat : (h.alloc o).1.address.toNat = h.objects.size + 1 :=
      UInt32.toNat_ofNat_of_lt hsize
    rw [hnat]
    simp

theorem Stocked.text_unique {text text' : String} (hs : h.Stocked) (hh : h.Addressable)
    (hr : h.Interns text r) (hr' : h.Interns text' r) : text = text' := by
  obtain ⟨o, ho, rfl⟩ := hs text r hr
  obtain ⟨o', ho', rfl⟩ := hs text' r hr'
  rw [Option.some.inj ((ho.get? hh).symm.trans (ho'.get? hh))]

theorem Interns.unique {text : String} {r' : Ref} (hr : h.Interns text r)
    (hr' : h.Interns text r') : r = r' := by
  obtain ⟨key, hfind⟩ := hr
  obtain ⟨key', hfind'⟩ := hr'
  rw [hfind] at hfind'
  cases hfind'
  rfl

/-! ## Deeds -/

theorem Step.retains (hstep : Step cs h w? h') : h.Retains h' := by
  cases hstep with
  | still => exact .refl h
  | allocate id c text => exact h.retains_alloc _
  | allocateArray hc hok =>
      unfold allocArray at hok
      split at hok <;> cases hok
      exact h.retains_alloc _
  | intern id c text => exact h.retains_intern id c text
  | store hok =>
      obtain ⟨_, _, rfl⟩ := store_eq_ok hok
      exact h.retains_modify _ fun _ => ⟨rfl, rfl⟩
  | assign r slot v => exact h.retains_modify _ fun _ => ⟨rfl, rfl⟩

theorem Stocked.retains (hs : h.Stocked) (hh : h.Retains h')
    (hinterned : h'.interned = h.interned) : h'.Stocked := by
  intro text r hr
  have hr' : h.Interns text r := by rwa [Interns, ← hinterned]
  obtain ⟨o, ho, htext⟩ := hs text r hr'
  obtain ⟨o', ho', htext'⟩ := ho.mono hh
  exact ⟨o', ho', htext'.trans htext⟩

theorem Stocked.intern (hs : h.Stocked) (id : ClassId) (c : Class) (text : String) :
    (h.intern id c text).2.Stocked := by
  have hretains := h.retains_intern id c text
  unfold Heap.intern at hretains ⊢
  split
  · exact hs
  · rename_i hnone
    simp only [hnone] at hretains
    intro text' r' hr'
    obtain ⟨key, hfind⟩ := hr'
    rw [List.find?_cons] at hfind
    split at hfind
    · rename_i htext
      cases hfind
      obtain ⟨i, ho, hi⟩ := h.addresses_alloc { classId := id, fields := c.zeroFields, text }
      exact ⟨_, ⟨i, ho, hi⟩, of_decide_eq_true htext⟩
    · obtain ⟨o, ho, htext⟩ := hs text' r' ⟨key, hfind⟩
      obtain ⟨o', ho', htext'⟩ := ho.mono hretains
      exact ⟨o', ho', htext'.trans htext⟩

theorem Stocked.step (hs : h.Stocked) (hstep : Step cs h w? h') : h'.Stocked := by
  have hretains := hstep.retains
  cases hstep with
  | intern id c text => exact hs.intern id c text
  | allocateArray hc hok => exact hs.retains hretains (Exec.interned_allocArray hok)
  | store hok =>
      obtain ⟨_, _, rfl⟩ := store_eq_ok hok
      exact hs.retains hretains rfl
  | still | allocate | assign => exact hs.retains hretains rfl

end Heap

theorem FineDeed.retains {a b : Vm} (h : FineDeed a b) : a.heap.Retains b.heap :=
  let ⟨_, hstep⟩ := h.heap
  hstep.retains

theorem FineDeeds.retains {a b : Vm} (h : FineDeeds a b) : a.heap.Retains b.heap := by
  induction h with
  | refl => exact .refl _
  | tail _ hdeed ih => exact ih.trans hdeed.retains

theorem FineDeeds.literate {a b : Vm} (h : FineDeeds a b) (ha : a.Literate) : b.Literate := by
  induction h with
  | refl => exact ha
  | tail _ hdeed ih => exact hdeed.literals ih

theorem FineDeeds.stocked {a b : Vm} (h : FineDeeds a b) (ha : a.heap.Stocked) :
    b.heap.Stocked := by
  induction h with
  | refl => exact ha
  | tail _ hdeed ih =>
      obtain ⟨w?, hstep⟩ := hdeed.heap
      exact ih.step hstep

/-! ## Handing out -/

namespace Exec

variable {vm vm' : Vm} {r : Ref}

theorem intern_eq_ok {text : String} (h : intern text vm = .ok r vm') :
    vm'.heap.Interns text r := by
  obtain ⟨id, c, rfl, hheap, -⟩ := made_eq_ok (f := fun id c h => h.intern id c text) h
  rw [hheap]
  exact vm.heap.interns_intern id c text

theorem newString_eq_ok {text : String} (h : newString text vm = .ok r vm') :
    ∃ o, r = (vm.heap.alloc o).1 ∧ vm'.heap = (vm.heap.alloc o).2 ∧ o.text = text := by
  obtain ⟨id, c, hr, hheap, -⟩ := made_eq_ok (f := fun id c h => h.newString id c text) h
  exact ⟨{ classId := id, fields := c.zeroFields, text }, hr, hheap, rfl⟩

theorem allocInstance_eq_ok {id : ClassId} (h : allocInstance id vm = .ok r vm') :
    ∃ o, vm'.heap.Addresses r o := by
  obtain ⟨c, vm₁, hclass, hmake⟩ := bind_eq_ok h
  obtain ⟨-, rfl⟩ := classAt_eq_ok hclass
  cases hmake
  exact ⟨_, Heap.addresses_alloc _ _⟩

theorem allocArray_eq_ok {id : ClassId} {length : Int32} (h : allocArray id length vm = .ok r vm') :
    ∃ o, vm'.heap.Addresses r o := by
  obtain ⟨c, vm₁, hclass, hmake⟩ := bind_eq_ok h
  obtain ⟨-, rfl⟩ := classAt_eq_ok hclass
  cases harray : vm₁.heap.allocArray id c length with
  | error e =>
      simp only [bind_apply, get_apply, harray] at hmake
      cases hmake
  | ok p =>
      simp only [bind_apply, get_apply, harray] at hmake
      cases hmake
      unfold Heap.allocArray at harray
      split at harray <;> cases harray
      exact ⟨_, Heap.addresses_alloc _ _⟩

/-- A literal that is a reference is the object of the text that the entry holds, whether it
was kept for the entry, is kept for it now, or is not kept. -/
theorem literal_eq_ok (hvm : vm.Literate) {id : ClassId} {index : UInt16}
    (h : literal id index vm = .ok (.ref r) vm') :
    ∃ c text, vm'.registry.classes[id]? = some c ∧ c.pool.stringValue index = .ok text ∧
      vm'.heap.Interns text r := by
  obtain ⟨resolved, vm₁, hresolve, hvalue⟩ := bind_eq_ok h
  cases resolved with
  | value v =>
      cases hvalue
      have hspells : vm'.heap.Spells vm'.registry.classes id index.toNat
          (.ok (.value (.ref r))) := by
        rcases resolve_eq_ok hresolve with ⟨s, hs, hkept, rfl⟩ | ⟨vm₂, hfollow, hclasses, hheap⟩
        · exact hvm hs hkept
        · rw [hclasses, hheap]
          exact interning_followLiteral id index _ _ _ hfollow
      obtain ⟨c, text, hc, htext, hinterns⟩ := hspells r rfl
      exact ⟨c, text, hc, by simpa using htext, hinterns⟩
  | _ => cases hvalue

end Exec

/-- A reference that was handed out, and the literal whose object it is, if it is one. -/
structure Handed where
  ref : Ref
  literal? : Option String
  deriving DecidableEq, Repr

/-- What was handed out, in order, on the way to a machine: the objects of literals, loaded
from pools or interned, and objects that were allocated. -/
inductive Vm.Hands (start : Vm) : List Handed → Vm → Prop
  | start : start.Hands [] start
  | deed {es : List Handed} {a b : Vm} (before : start.Hands es a) (hdeed : FineDeed a b) :
      start.Hands es b
  | literal {es : List Handed} {a b : Vm} {id : ClassId} {index : UInt16} {r : Ref} {c : Class}
      {text : String} (before : start.Hands es a)
      (hok : Exec.literal id index a = .ok (.ref r) b) (hclass : b.registry.classes[id]? = some c)
      (htext : c.pool.stringValue index = .ok text) : start.Hands (es ++ [⟨r, some text⟩]) b
  | intern {es : List Handed} {a b : Vm} {text : String} {r : Ref} (before : start.Hands es a)
      (hok : Exec.intern text a = .ok r b) : start.Hands (es ++ [⟨r, some text⟩]) b
  | string {es : List Handed} {a b : Vm} {text : String} {r : Ref} (before : start.Hands es a)
      (hok : Exec.newString text a = .ok r b) : start.Hands (es ++ [⟨r, none⟩]) b
  | object {es : List Handed} {a b : Vm} {id : ClassId} {r : Ref} (before : start.Hands es a)
      (hok : Exec.allocInstance id a = .ok r b) : start.Hands (es ++ [⟨r, none⟩]) b
  | array {es : List Handed} {a b : Vm} {id : ClassId} {length : Int32} {r : Ref}
      (before : start.Hands es a) (hok : Exec.allocArray id length a = .ok r b) :
      start.Hands (es ++ [⟨r, none⟩]) b

/-- What holds of a machine and of what was handed out on the way to it. -/
structure Vm.Accounts (es : List Handed) (vm : Vm) : Prop where
  literate : vm.Literate
  stocked : vm.heap.Stocked
  placed : ∀ e ∈ es, ∃ o, vm.heap.Addresses e.ref o
  interned : ∀ e ∈ es, ∀ text, e.literal? = some text → vm.heap.Interns text e.ref

namespace Vm

variable {start a b vm vm' : Vm} {es : List Handed}

theorem Accounts.fineDeeds (h : a.Accounts es) (hdeeds : FineDeeds a b) : b.Accounts es where
  literate := hdeeds.literate h.literate
  stocked := hdeeds.stocked h.stocked
  placed e he :=
    let ⟨_, ho⟩ := h.placed e he
    let ⟨o', ho', _⟩ := ho.mono hdeeds.retains
    ⟨o', ho'⟩
  interned e he text htext := interns_of_deeds hdeeds.deeds (h.interned e he text htext)

theorem Accounts.concat (h : vm.Accounts es) {e : Handed} (hplaced : ∃ o, vm.heap.Addresses e.ref o)
    (hinterned : ∀ text, e.literal? = some text → vm.heap.Interns text e.ref) :
    vm.Accounts (es ++ [e]) where
  literate := h.literate
  stocked := h.stocked
  placed e' he' := by
    rcases List.mem_append.mp he' with hmem | hlast
    · exact h.placed e' hmem
    · obtain rfl := List.mem_singleton.mp hlast
      exact hplaced
  interned e' he' := by
    rcases List.mem_append.mp he' with hmem | hlast
    · exact h.interned e' hmem
    · obtain rfl := List.mem_singleton.mp hlast
      exact hinterned

theorem Accounts.literal (h : vm.Accounts es) {text : String} {r : Ref}
    (hr : vm.heap.Interns text r) : vm.Accounts (es ++ [⟨r, some text⟩]) := by
  obtain ⟨o, ho, -⟩ := h.stocked text r hr
  refine h.concat ⟨o, ho⟩ fun text' htext' => ?_
  cases htext'
  exact hr

theorem Hands.accounts (h : start.Hands es vm) (hstart : start.Accounts []) : vm.Accounts es := by
  induction h with
  | start => exact hstart
  | deed _ hdeed ih => exact ih.fineDeeds (.single hdeed)
  | literal _ hok hclass htext ih =>
      obtain ⟨c, text, hc, hvalue, hinterns⟩ := Exec.literal_eq_ok ih.literate hok
      cases hclass.symm.trans hc
      cases htext.symm.trans hvalue
      exact (ih.fineDeeds (Exec.Quiet.ok hok).fineDeeds).literal hinterns
  | intern _ hok ih =>
      exact (ih.fineDeeds (Exec.Quiet.ok hok).fineDeeds).literal (Exec.intern_eq_ok hok)
  | string _ hok ih =>
      obtain ⟨o, rfl, hheap, -⟩ := Exec.newString_eq_ok hok
      exact (ih.fineDeeds (Exec.Quiet.ok hok).fineDeeds).concat
        ⟨o, hheap ▸ Heap.addresses_alloc _ o⟩ nofun
  | object _ hok ih =>
      exact (ih.fineDeeds (Exec.Quiet.ok hok).fineDeeds).concat (Exec.allocInstance_eq_ok hok) nofun
  | array _ hok ih =>
      exact (ih.fineDeeds (Exec.Quiet.ok hok).fineDeeds).concat (Exec.allocArray_eq_ok hok) nofun

theorem Hands.fineDeeds (h : start.Hands es a) (hdeeds : FineDeeds a b) : start.Hands es b := by
  induction hdeeds with
  | refl => exact h
  | tail _ hdeed ih => exact ih.deed hdeed

theorem accounts_start (source? : Option Search.Source) (maxFrames : Int)
    (profiler? : Option (Profiler MethodId)) :
    (Vm.start source? maxFrames profiler?).Accounts [] where
  literate _ _ _ _ hs := by simp [Vm.start, Registry.status?] at hs
  stocked _ _ hr := by
    obtain ⟨_, hfind⟩ := hr
    simp [Vm.start] at hfind
  placed := nofun
  interned := nofun

theorem Hands.load (h : start.Hands es a) (hstart : start.Accounts []) {id : ClassId}
    {index : UInt16} {r : Ref} (hok : Exec.literal id index a = .ok (.ref r) b) :
    ∃ c text, b.registry.classes[id]? = some c ∧ c.pool.stringValue index = .ok text ∧
      start.Hands (es ++ [⟨r, some text⟩]) b := by
  obtain ⟨c, text, hc, htext, -⟩ := Exec.literal_eq_ok (h.accounts hstart).literate hok
  exact ⟨c, text, hc, htext, h.literal hok hc htext⟩

theorem Accounts.same_literal (h : vm.Accounts es) {e e' : Handed} {text text' : String}
    (he : e ∈ es) (he' : e' ∈ es) (htext : e.literal? = some text)
    (htext' : e'.literal? = some text') :
    (text = text' → e.ref = e'.ref) ∧
      (vm.heap.Addressable → e.ref = e'.ref → text = text') := by
  have hr := h.interned e he text htext
  have hr' := h.interned e' he' text' htext'
  constructor
  · rintro rfl
    exact hr.unique hr'
  · intro hh heq
    rw [← heq] at hr'
    exact h.stocked.text_unique hh hr hr'

theorem Accounts.newString (h : vm.Accounts es) {text : String} {r : Ref}
    (hok : Exec.newString text vm = .ok r vm') (hh : vm'.heap.Addressable) :
    vm.heap.get? r = none ∧ (∃ o, vm'.heap.get? r = some o ∧ o.text = text) ∧
      ∀ e ∈ es, e.ref ≠ r := by
  obtain ⟨o, rfl, hheap, htext⟩ := Exec.newString_eq_ok hok
  rw [hheap] at hh ⊢
  have hnone := Heap.get?_alloc_none hh
  have hfewer : vm.heap.Addressable :=
    Nat.lt_of_le_of_lt (vm.heap.retains_alloc o).size_le hh
  refine ⟨hnone, ⟨o, (vm.heap.addresses_alloc o).get? hh, htext⟩, ?_⟩
  rintro e he heq
  obtain ⟨o', ho'⟩ := h.placed e he
  rw [← heq, ho'.get? hfewer] at hnone
  cases hnone

end Vm

/-! ## Loading literals -/

def literalIndex? (code : Array UInt8) (pc : Nat) : Option UInt16 :=
  match code[pc]? with
  | some 0x12 => (code[pc + 1]?).map (·.toUInt16)
  | some 0x13 | some 0x14 => BigEndian.read16? code (pc + 1)
  | _ => none

namespace Exec

variable {prepare : ClassId → Exec Unit} {vm vm' : Vm} {f : Frame} {below : List Frame}
  {index : UInt16}

theorem pushLiteral_eq_ok (hframes : vm.frames = f :: below)
    (h : pushLiteral index vm = .ok () vm') :
    ∃ v vm₁, literal f.method.id.owner index vm = .ok v vm₁ ∧
      vm' = { vm₁ with frames := { f with stack := v :: f.stack } :: below } := by
  unfold pushLiteral at h
  rw [bind_of_ok (currentClass_apply hframes)] at h
  obtain ⟨v, vm₁, hliteral, hpush⟩ := bind_eq_ok h
  have hframes₁ : vm₁.frames = f :: below := (OffFrame.ok hliteral).trans hframes
  obtain ⟨f', hpushed, rfl⟩ := onFrame_eq_ok hframes₁ hpush
  obtain ⟨-, rfl⟩ := FrameM.push_eq_ok hpushed
  exact ⟨v, vm₁, hliteral, rfl⟩

theorem readLiteral_eq_ok {α : Type} {x : FrameM α} {g : α → UInt16}
    (h : (do pushLiteral (g (← onFrame x)) : Exec Unit) { vm with frames := f :: below } =
      .ok () vm')
    (hx : ∀ {a f'}, x f = .ok a f' →
      g a = index ∧ f'.method = f.method ∧ f'.stack = f.stack) :
    ∃ f₁ v vm₁, literal f.method.id.owner index { vm with frames := f₁ :: below } = .ok v vm₁ ∧
      vm' = { vm₁ with frames := { f₁ with stack := v :: f.stack } :: below } := by
  obtain ⟨a, vm₁, hread, hpush⟩ := bind_eq_ok h
  obtain ⟨f₁, hf₁, rfl⟩ := onFrame_eq_ok rfl hread
  obtain ⟨rfl, hmethod, hstack⟩ := hx hf₁
  obtain ⟨v, vm₂, hliteral, rfl⟩ := pushLiteral_eq_ok rfl hpush
  rw [hmethod] at hliteral
  exact ⟨f₁, v, vm₂, hliteral, by rw [hstack]⟩

theorem step_literal_eq_ok (hframes : vm.frames = f :: below)
    (hindex : literalIndex? f.body.code f.pc = some index) (h : step prepare vm = .ok () vm') :
    ∃ f₁ v vm₁, literal f.method.id.owner index { vm with frames := f₁ :: below } = .ok v vm₁ ∧
      vm' = { vm₁ with frames := { f₁ with stack := v :: f.stack } :: below } := by
  have hwide {byte : UInt8} (hbyte : f.body.code[f.pc]? = some byte)
      (hop : (⟨byte⟩ : Code.Opcode).operation? = some (.object .literalWide))
      (hread : BigEndian.read16? f.body.code (f.pc + 1) = some index) :
      ∃ f₁ v vm₁, literal f.method.id.owner index { vm with frames := f₁ :: below } = .ok v vm₁ ∧
        vm' = { vm₁ with frames := { f₁ with stack := v :: f.stack } :: below } := by
    rw [step_apply hframes hbyte hop] at h
    refine readLiteral_eq_ok (f := { f with opPc := f.pc, pc := f.pc + 1 }) h ?_
    intro a f' hf'
    obtain ⟨ha, rfl⟩ := FrameM.fetch_eq_ok hf'
    exact ⟨Option.some.inj (ha.symm.trans hread), rfl, rfl⟩
  unfold literalIndex? at hindex
  split at hindex
  · rename_i hbyte
    obtain ⟨b, hb, rfl⟩ := Option.map_eq_some_iff.mp hindex
    have hop : (⟨0x12⟩ : Code.Opcode).operation? = some (.object .literal) := by decide +kernel
    rw [step_apply hframes hbyte hop] at h
    refine readLiteral_eq_ok (f := { f with opPc := f.pc, pc := f.pc + 1 }) h ?_
    intro a f' hf'
    obtain ⟨ha, rfl⟩ := FrameM.fetch_eq_ok hf'
    exact ⟨congrArg _ (Option.some.inj (ha.symm.trans hb)), rfl, rfl⟩
  · rename_i hbyte
    exact hwide hbyte (by decide +kernel) hindex
  · rename_i hbyte
    exact hwide hbyte (by decide +kernel) hindex
  · cases hindex

theorem assignConstant_eq_ok {field : Field} (hstatic : field.isStatic = true)
    (hconstant : field.constantIndex ≠ 0) (h : assignConstant field vm = .ok () vm') :
    ∃ v vm₁, literal field.id.owner field.constantIndex vm = .ok v vm₁ ∧
      vm' = after (setStaticSlot field v) vm₁ := by
  have hguard : (field.isStatic && field.constantIndex ≠ 0) = true := by simp [hstatic, hconstant]
  rw [assignConstant, if_pos hguard] at h
  obtain ⟨outcome, vm₁, hliteral, hset⟩ := bind_eq_ok h
  cases outcome with
  | error e => cases hset
  | ok v => exact ⟨v, vm₁, ok_of_attempt hliteral, (after_ok hset).symm⟩

end Exec

namespace Vm.Hands

variable {start vm vm' : Vm} {es : List Handed}

theorem step_literal (h : start.Hands es vm) (hstart : start.Accounts [])
    {prepare : ClassId → Exec Unit} {f : Frame} {below : List Frame} {index : UInt16}
    (hframes : vm.frames = f :: below) (hindex : literalIndex? f.body.code f.pc = some index)
    (hok : Exec.step prepare vm = .ok () vm') :
    ∃ f' v, vm'.frames = f' :: below ∧ f'.stack = v :: f.stack ∧ ∀ r, v = .ref r →
      ∃ c text, vm'.registry.classes[f.method.id.owner]? = some c ∧
        c.pool.stringValue index = .ok text ∧
        start.Hands (es ++ [⟨r, some text⟩]) vm' := by
  obtain ⟨f₁, v, vm₁, hliteral, rfl⟩ := Exec.step_literal_eq_ok hframes hindex hok
  refine ⟨_, v, rfl, rfl, ?_⟩
  rintro r rfl
  have haside {a b : Vm} (source : b.source = a.source) (registry : b.registry = a.registry)
      (heap : b.heap = a.heap) : FineDeed a b := (QuietDeed.aside source registry heap).fine
  have hread : start.Hands es { vm with frames := f₁ :: below } := h.deed (haside rfl rfl rfl)
  obtain ⟨c, text, hc, htext, hloaded⟩ := hread.load hstart hliteral
  exact ⟨c, text, hc, htext, hloaded.deed (haside rfl rfl rfl)⟩

theorem assignConstant (h : start.Hands es vm) (hstart : start.Accounts []) {field : Field}
    (hstatic : field.isStatic = true) (hconstant : field.constantIndex ≠ 0)
    (hok : Exec.assignConstant field vm = .ok () vm') :
    ∃ v vm₁, vm' = Exec.after (Exec.setStaticSlot field v) vm₁ ∧ ∀ r, v = .ref r →
      ∃ c text, vm'.registry.classes[field.id.owner]? = some c ∧
        c.pool.stringValue field.constantIndex = .ok text ∧
        start.Hands (es ++ [⟨r, some text⟩]) vm' := by
  obtain ⟨v, vm₁, hliteral, rfl⟩ := Exec.assignConstant_eq_ok hstatic hconstant hok
  refine ⟨v, vm₁, rfl, ?_⟩
  rintro r rfl
  obtain ⟨c, text, hc, htext, hloaded⟩ := h.load hstart hliteral
  have hset := (Exec.Quiet.deeds (x := Exec.setStaticSlot field (.ref r)) vm₁).fineDeeds
  exact ⟨c, text, hc, htext, hloaded.fineDeeds hset⟩

end Vm.Hands

/-- Literals are identical exactly when they are equal.  Whatever a machine does, and whatever
was handed out on the way, two references that were handed out for literals are the same if
the texts are equal, and only then as long as there are addresses for all objects.  Objects
keep their class and their text.  A reference to a new string led to no object before, and is
none of those that were handed out.  The literals are those that instructions load, that
constant fields get, and that the host or the machine interns. -/
theorem literals_identical (source? : Option Search.Source) (maxFrames : Int)
    (profiler? : Option (Profiler MethodId)) {es : List Handed} {vm : Vm}
    (h : (Vm.start source? maxFrames profiler?).Hands es vm) :
    (∀ e ∈ es, ∀ e' ∈ es, ∀ text text', e.literal? = some text → e'.literal? = some text' →
      (text = text' → e.ref = e'.ref) ∧
        (vm.heap.Addressable → e.ref = e'.ref → text = text')) ∧
    (∀ vm', FineDeeds vm vm' → ∀ r o, vm.heap.get? r = some o →
      ∃ o', vm'.heap.get? r = some o' ∧ o'.classId = o.classId ∧ o'.text = o.text) ∧
    (∀ text r vm', Exec.newString text vm = .ok r vm' → vm'.heap.Addressable →
      vm.heap.get? r = none ∧ (∃ o, vm'.heap.get? r = some o ∧ o.text = text) ∧
        ∀ e ∈ es, e.ref ≠ r) ∧
    (∀ vm', vm.Acts vm' →
      FineDeeds vm vm' ∧ (Vm.start source? maxFrames profiler?).Hands es vm') ∧
    (∀ prepare f below index vm', vm.frames = f :: below →
      literalIndex? f.body.code f.pc = some index → Exec.step prepare vm = .ok () vm' →
      ∃ f' v, vm'.frames = f' :: below ∧ f'.stack = v :: f.stack ∧ ∀ r, v = .ref r →
        ∃ c text, vm'.registry.classes[f.method.id.owner]? = some c ∧
          c.pool.stringValue index = .ok text ∧
          (Vm.start source? maxFrames profiler?).Hands (es ++ [⟨r, some text⟩]) vm') ∧
    (∀ field vm', field.isStatic = true → field.constantIndex ≠ 0 →
      Exec.assignConstant field vm = .ok () vm' →
      ∃ v vm₁, vm' = Exec.after (Exec.setStaticSlot field v) vm₁ ∧ ∀ r, v = .ref r →
        ∃ c text, vm'.registry.classes[field.id.owner]? = some c ∧
          c.pool.stringValue field.constantIndex = .ok text ∧
          (Vm.start source? maxFrames profiler?).Hands (es ++ [⟨r, some text⟩]) vm') := by
  have hstart := Vm.accounts_start source? maxFrames profiler?
  have haccounts := h.accounts hstart
  refine ⟨?_, ?_, ?_, ?_, ?_, ?_⟩
  · intro e he e' he' text text' htext htext'
    exact haccounts.same_literal he he' htext htext'
  · intro vm' hdeeds r o ho
    exact hdeeds.retains.get? ho
  · intro text r vm' hok hh
    exact haccounts.newString hok hh
  · intro vm' hacts
    exact ⟨hacts.fineDeeds, h.fineDeeds hacts.fineDeeds⟩
  · intro prepare f below index vm' hframes hindex hok
    exact h.step_literal hstart hframes hindex hok
  · intro field vm' hstatic hconstant hok
    exact h.assignConstant hstart hstatic hconstant hok

namespace InternedTwice

open Exec (stringClassName)

def stringFile : List UInt8 := [
  0xca, 0xfe, 0xba, 0xbe, 0x00, 0x00, 0x00, 0x34, 0x00, 0x05, 0x01, 0x00, 0x10, 0x6a, 0x61, 0x76,
  0x61, 0x2f, 0x6c, 0x61, 0x6e, 0x67, 0x2f, 0x53, 0x74, 0x72, 0x69, 0x6e, 0x67, 0x07, 0x00, 0x01,
  0x01, 0x00, 0x10, 0x6a, 0x61, 0x76, 0x61, 0x2f, 0x6c, 0x61, 0x6e, 0x67, 0x2f, 0x4f, 0x62, 0x6a,
  0x65, 0x63, 0x74, 0x07, 0x00, 0x03, 0x00, 0x31, 0x00, 0x02, 0x00, 0x04, 0x00, 0x00, 0x00, 0x00,
  0x00, 0x00, 0x00, 0x00]

def files : Search.Memory :=
  ⟨[(ClassFile.rootClassName, .ok PlainRoot.file), (stringClassName, .ok stringFile)]⟩

def vm : Vm := Vm.start (some files.source) 0 none

def string : Class :=
  { PlainRoot.root with
    name := stringClassName
    flags := 0x0031
    super? := some 0
    pool := ⟨#[none, some (.utf8 stringClassName), some (.classRef 1),
      some (.utf8 ClassFile.rootClassName), some (.classRef 3)]⟩ }

def withString : Registry := (PlainRoot.registry.add string .linked #[]).2

def holding (heap : Heap) : Vm := { vm with registry := withString, heap }

theorem load_string : load vm.source [] stringClassName {} = (.ok 1, withString) := by
  have hgather : gather (load vm.source [stringClassName]) stringClassName
      [⟨.superclass, ClassFile.rootClassName⟩] {} = (.ok [0], PlainRoot.registry) :=
    Registry.gather_cons (PlainRoot.load_root rfl (by decide)) (by decide) rfl
  exact Registry.load_of_gathered PlainRoot.registry string (by with_unfolding_all decide)
    (by decide)
    (by decide) (by decide) hgather (by with_unfolding_all decide)

theorem loadClass_holding (heap : Heap) :
    Exec.loadClass stringClassName (holding heap) = .ok 1 (holding heap) := by
  have hfound : withString.find? stringClassName = some 1 := by with_unfolding_all decide
  rw [Exec.loadClass_apply]
  simp only [holding, Registry.load_of_found hfound]

theorem intern_holding (heap : Heap) (text : String) :
    Exec.intern text (holding heap) =
      .ok (heap.intern 1 string text).1 (holding (heap.intern 1 string text).2) := by
  rw [Exec.intern, Exec.bind_of_ok (loadClass_holding heap)]
  rfl

theorem newString_holding (heap : Heap) (text : String) :
    Exec.newString text (holding heap) =
      .ok (heap.newString 1 string text).1 (holding (heap.newString 1 string text).2) := by
  rw [Exec.newString, Exec.bind_of_ok (loadClass_holding heap)]
  rfl

def one : Heap := (({} : Heap).intern 1 string "a").2

def two : Heap := (one.intern 1 string "b").2

theorem hands_interned :
    vm.Hands [⟨⟨1⟩, some "a"⟩, ⟨⟨2⟩, some "b"⟩, ⟨⟨1⟩, some "a"⟩] (holding two) := by
  have hload : vm.Hands [] (holding {}) := by
    have hdeed := (QuietDeed.load vm stringClassName).fine
    have hstring : load vm.source [] stringClassName vm.registry = (.ok 1, withString) :=
      load_string
    rw [hstring] at hdeed
    exact .deed .start hdeed
  exact ((hload.intern (intern_holding {} "a")).intern (intern_holding one "b")).intern
    (intern_holding two "a")

/-- The text is interned twice with one object, which no new string has. -/
theorem literals_identical_again :
    ((⟨2⟩ : Ref) = ⟨1⟩ → "b" = "a") ∧ (two.get? ⟨3⟩ = none ∧
      (∃ o, (two.newString 1 string "a").2.get? ⟨3⟩ = some o ∧ o.text = "a") ∧
        ∀ e ∈ [(⟨⟨1⟩, some "a"⟩ : Handed), ⟨⟨2⟩, some "b"⟩, ⟨⟨1⟩, some "a"⟩], e.ref ≠ ⟨3⟩) := by
  obtain ⟨hpairs, -, hfresh, -⟩ := literals_identical _ _ _ hands_interned
  exact ⟨(hpairs ⟨⟨2⟩, some "b"⟩ (by simp) ⟨⟨1⟩, some "a"⟩ (by simp) "b" "a" rfl rfl).2
    (by unfold Heap.Addressable; decide),
    hfresh "a" ⟨3⟩ _ (newString_holding two "a") (by unfold Heap.Addressable; decide)⟩

end InternedTwice

end ClassEngine.Machine
