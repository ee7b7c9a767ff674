import ClassEngine.Proofs.Machine.Entries
import ClassEngine.Proofs.Machine.Exceptions
import ClassEngine.Proofs.Machine.Hierarchy

/-!
# Unwinding is exact

An exception goes to the innermost frame of the run with a row that takes it, and
there to the first such row.  Whether a row takes an exception is said of the
machine after the search: the entries it resolved on its way are final, and classes
loaded later do not change which classes are subclasses of which.
-/

namespace ClassEngine.Machine

open ClassFile (Handler)

namespace Exec

/-- The type of a row allows exceptions of a class. -/
def Allows (vm : Vm) (thrown : ClassId) (f : Frame) (h : Handler) : Prop :=
  h.catchType = 0 ∨ ∃ target vm', resolveClass f.method.id.owner h.catchType vm = .ok target vm' ∧
    vm'.registry.classes.isAssignable thrown target = true

/-- A row covers the current instruction of its frame and allows the exception. -/
def Takes (vm : Vm) (thrown : ClassId) (f : Frame) (h : Handler) : Prop :=
  (h.start.toNat ≤ f.opPc ∧ f.opPc < h.stop.toNat) ∧ Allows vm thrown f h

/-- The numbers that stand in frames and the registry belong to classes. -/
structure Linked (vm : Vm) : Prop where
  registry : vm.registry.WellFormed
  owners : ∀ f ∈ vm.frames, f.method.id.owner < vm.registry.classes.size

theorem covers_iff (h : Handler) (pc : Nat) :
    h.covers pc = true ↔ h.start.toNat ≤ pc ∧ pc < h.stop.toNat := by
  simp [Handler.covers]

/-! ## Rows -/

section

variable {vm : Vm} {thrown : ClassId} {f : Frame}

theorem accepts_spec (hw : vm.registry.WellFormed)
    (howner : f.method.id.owner < vm.registry.classes.size)
    (hthrown : thrown < vm.registry.classes.size) (h : Handler) :
    ∃ accepted registry, accepts f thrown h vm = .ok accepted { vm with registry } ∧
      ∀ vm', registry.Grows vm'.registry → (accepted = true ↔ Allows vm' thrown f h) := by
  unfold accepts
  by_cases hany : h.catchType = 0
  · rw [if_pos hany]
    exact ⟨true, vm.registry, rfl, fun vm' _ => by simp [Allows, hany]⟩
  · rw [if_neg hany]
    obtain ⟨outcome, registry, hresolve, hlt⟩ := resolveClass_total hw howner h.catchType
    have hchanges := ((local_resolveClass _ _).attempt.ok hresolve).1
    rw [bind_apply, hresolve]
    cases outcome with
    | error e =>
        refine ⟨false, registry, rfl, fun vm' hgrows => ?_⟩
        have hagain := fault_of_attempt (resolveClass_again hresolve hgrows)
        simp [Allows, hany, hagain]
    | ok target =>
        refine ⟨registry.classes.isAssignable thrown target, registry, rfl, fun vm' hgrows => ?_⟩
        have hagain := ok_of_attempt (resolveClass_again hresolve hgrows)
        have hw' : registry.WellFormed := wellFormed_of_changes hchanges hw
        have hthrown' : thrown < registry.classes.size := (grows_of_changes hchanges).lt hthrown
        have hsame := hgrows.isAssignable hw' hthrown' (hlt target rfl)
        constructor
        · intro h'
          exact .inr ⟨target, vm', hagain, hsame.trans h'⟩
        · rintro (hzero | ⟨target', vm₁, hresolved, h'⟩)
          · exact absurd hzero hany
          · rw [hagain] at hresolved
            cases hresolved
            exact hsame.symm.trans h'

/-- Of some rows of a frame, `h` is the first that takes the exception. -/
def FirstRow (vm : Vm) (thrown : ClassId) (f : Frame) (rows : List Handler) (h : Handler) : Prop :=
  ∃ before after, rows = before ++ h :: after ∧ Takes vm thrown f h ∧
    ∀ h' ∈ before, ¬ Takes vm thrown f h'

theorem FirstRow.cons {rows : List Handler} {h h' : Handler} (hrow : FirstRow vm thrown f rows h)
    (hfirst : ¬ Takes vm thrown f h') : FirstRow vm thrown f (h' :: rows) h := by
  obtain ⟨before, after, rfl, htakes, hbefore⟩ := hrow
  refine ⟨h' :: before, after, rfl, htakes, fun h'' hmem => ?_⟩
  rcases List.mem_cons.mp hmem with rfl | hmem
  · exact hfirst
  · exact hbefore h'' hmem

def FindsRow (vm : Vm) (thrown : ClassId) (f : Frame) (rows : List Handler) : Option Nat → Prop
  | none => ∀ h ∈ rows, ¬ Takes vm thrown f h
  | some pc => ∃ h, FirstRow vm thrown f rows h ∧ pc = h.target.toNat

theorem FindsRow.cons {rows : List Handler} {h : Handler} {pc? : Option Nat}
    (hfinds : FindsRow vm thrown f rows pc?) (hfirst : ¬ Takes vm thrown f h) :
    FindsRow vm thrown f (h :: rows) pc? := by
  cases pc? with
  | none =>
      intro h' hmem
      rcases List.mem_cons.mp hmem with rfl | hmem
      · exact hfirst
      · exact hfinds h' hmem
  | some pc =>
      obtain ⟨h', hrow, hpc⟩ := hfinds
      exact ⟨h', hrow.cons hfirst, hpc⟩

theorem findHandler_spec (vm : Vm) (hw : vm.registry.WellFormed)
    (howner : f.method.id.owner < vm.registry.classes.size)
    (hthrown : thrown < vm.registry.classes.size) (rows : List Handler) :
    ∃ pc? registry, findHandler f thrown rows vm = .ok pc? { vm with registry } ∧
      ∀ vm', registry.Grows vm'.registry → FindsRow vm' thrown f rows pc? := by
  induction rows generalizing vm with
  | nil => exact ⟨none, vm.registry, rfl, fun _ _ => by simp [FindsRow]⟩
  | cons h rest ih =>
      unfold findHandler
      by_cases hcovers : h.covers f.opPc
      · rw [if_pos hcovers]
        obtain ⟨accepted, registry, haccepts, hallows⟩ := accepts_spec hw howner hthrown h
        rw [bind_apply, haccepts]
        cases accepted with
        | true =>
            refine ⟨some h.target.toNat, registry, rfl, fun vm' hgrows => ?_⟩
            have htakes : Takes vm' thrown f h :=
              ⟨(covers_iff h f.opPc).mp hcovers, (hallows vm' hgrows).mp rfl⟩
            exact ⟨h, ⟨[], rest, rfl, htakes, by simp⟩, rfl⟩
        | false =>
            have hchanges := ((searches_accepts f thrown h).ok haccepts).1.1
            have hgrows₁ := grows_of_changes hchanges
            obtain ⟨pc?, registry', hfind, hfinds⟩ := ih { vm with registry }
              (wellFormed_of_changes hchanges hw) (hgrows₁.lt howner) (hgrows₁.lt hthrown)
            refine ⟨pc?, registry', hfind, fun vm' hgrows => (hfinds vm' hgrows).cons ?_⟩
            have hgrows₂ := grows_of_changes ((searches_findHandler f thrown rest).ok hfind).1.1
            -- The row was refused before the rest was searched, and the refusal is final.
            rintro ⟨-, hallowed⟩
            exact absurd ((hallows vm' (hgrows₂.trans hgrows)).mpr hallowed) (by simp)
      · rw [if_neg hcovers]
        obtain ⟨pc?, registry, hfind, hfinds⟩ := ih vm hw howner hthrown
        refine ⟨pc?, registry, hfind, fun vm' hgrows => (hfinds vm' hgrows).cons ?_⟩
        rintro ⟨hrange, -⟩
        exact hcovers ((covers_iff h f.opPc).mpr hrange)

end

/-! ## Frames -/

/-- No row of the frame takes the exception. -/
def Passes (vm : Vm) (thrown : ClassId) (f : Frame) : Prop :=
  ∀ h ∈ f.body.handlers, ¬ Takes vm thrown f h

/-- Of the frames above the first `base`, `f` is the innermost that takes the
exception, by its row `h`; the frames `below` it stay. -/
def Handles (vm : Vm) (base : Nat) (thrown : ClassId) (frames : List Frame) (f : Frame)
    (h : Handler) (below : List Frame) : Prop :=
  ∃ above, frames = above ++ f :: below ∧ base ≤ below.length ∧
    FirstRow vm thrown f f.body.handlers h ∧ ∀ f' ∈ above, Passes vm thrown f'

def FindsFrame (vm : Vm) (base : Nat) (thrown : ClassId) (frames : List Frame) :
    Option (List Frame) → Prop
  | none => ∀ above f below, frames = above ++ f :: below → base ≤ below.length →
      Passes vm thrown f
  | some frames' => ∃ f h below, Handles vm base thrown frames f h below ∧
      frames' = { f with stack := [], pc := h.target.toNat } :: below

theorem FindsFrame.cons {vm : Vm} {base : Nat} {thrown : ClassId} {frames : List Frame} {f : Frame}
    {frames? : Option (List Frame)} (hfinds : FindsFrame vm base thrown frames frames?)
    (hpasses : Passes vm thrown f) : FindsFrame vm base thrown (f :: frames) frames? := by
  cases frames? with
  | none =>
      intro above f' below heq hbase
      cases above with
      | nil =>
          cases heq
          exact hpasses
      | cons f'' above => exact hfinds above f' below (List.cons.inj heq).2 hbase
  | some frames' =>
      obtain ⟨f', h, below, ⟨above, rfl, hbase, hrow, habove⟩, rfl⟩ := hfinds
      refine ⟨f', h, below, ⟨f :: above, rfl, hbase, hrow, fun f'' hmem => ?_⟩, rfl⟩
      rcases List.mem_cons.mp hmem with rfl | hmem
      · exact hpasses
      · exact habove f'' hmem

theorem seekHandler_spec (vm : Vm) (base : Nat) {thrown : ClassId} {frames : List Frame}
    (hw : vm.registry.WellFormed)
    (howners : ∀ f ∈ frames, f.method.id.owner < vm.registry.classes.size)
    (hthrown : thrown < vm.registry.classes.size) :
    ∃ frames? registry, seekHandler base thrown frames vm = .ok frames? { vm with registry } ∧
      ∀ vm', registry.Grows vm'.registry → FindsFrame vm' base thrown frames frames? := by
  induction frames generalizing vm with
  | nil => exact ⟨none, vm.registry, rfl, fun _ _ => by simp [FindsFrame]⟩
  | cons f below ih =>
      unfold seekHandler
      by_cases hbase : below.length < base
      · rw [if_pos hbase]
        refine ⟨none, vm.registry, rfl, fun vm' _ above f' below' heq hlen => ?_⟩
        have hlength := congrArg List.length heq
        simp only [List.length_cons, List.length_append] at hlength
        omega
      · rw [if_neg hbase]
        obtain ⟨howner, howners⟩ := List.forall_mem_cons.mp howners
        obtain ⟨pc?, registry, hfind, hfinds⟩ :=
          findHandler_spec vm hw howner hthrown f.body.handlers
        rw [bind_apply, hfind]
        cases pc? with
        | some pc =>
            refine ⟨_, registry, rfl, fun vm' hgrows => ?_⟩
            obtain ⟨h, hrow, rfl⟩ := hfinds vm' hgrows
            exact ⟨f, h, below, ⟨[], rfl, by omega, hrow, by simp⟩, rfl⟩
        | none =>
            have hchanges := ((searches_findHandler f thrown _).ok hfind).1.1
            have hgrows₁ := grows_of_changes hchanges
            obtain ⟨frames?, registry', hseek, hseeks⟩ := ih { vm with registry }
              (wellFormed_of_changes hchanges hw) (fun f' hmem => hgrows₁.lt (howners f' hmem))
              (hgrows₁.lt hthrown)
            refine ⟨frames?, registry', hseek, fun vm' hgrows => (hseeks vm' hgrows).cons ?_⟩
            have hgrows₂ := grows_of_changes ((searches_seekHandler base thrown below).ok hseek).1.1
            exact hfinds vm' (hgrows₂.trans hgrows)

/-! ## Unwinding -/

theorem stringText?_total (r : Ref) (vm : Vm) :
    ∃ text?, stringText? r vm = .ok text? vm := by
  unfold stringText?
  rw [bind_apply, get_apply]
  dsimp only
  cases vm.heap.get? r with
  | none => exact ⟨none, rfl⟩
  | some o =>
      dsimp only
      split
      · exact ⟨some o.text, rfl⟩
      · exact ⟨none, rfl⟩

theorem throwableMessage_total (r : Ref) (vm : Vm) :
    ∃ message, throwableMessage r vm = .ok message vm := by
  unfold throwableMessage
  rw [bind_apply, get_apply]
  dsimp only
  cases hroot : vm.registry.find? throwableName with
  | none => exact ⟨"", rfl⟩
  | some root =>
      dsimp only
      obtain ⟨c, hc⟩ : ∃ c, vm.registry.classes[root]? = some c :=
        ⟨_, Array.getElem?_eq_getElem (Registry.find?_lt hroot)⟩
      unfold getField
      rw [bind_apply, attempt_bind_of_ok (classAt_apply_of_some hc),
        attempt_bind_of_ok (get_apply vm), attempt_ofExcept]
      dsimp only
      generalize vm.heap.getField vm.registry.classes r c messageFieldName = v?
      cases v? with
      | error e => exact ⟨"", rfl⟩
      | ok v =>
          dsimp only
          by_cases hnull : v.isNull
          · rw [if_pos hnull]
            exact ⟨"", rfl⟩
          · rw [if_neg hnull, bind_apply]
            obtain ⟨text?, htext⟩ := stringText?_total v.asRef vm
            rw [htext]
            exact ⟨_, rfl⟩

theorem report_total (vm : Vm) {thrown : ClassId} (hthrown : thrown < vm.registry.classes.size)
    (r : Ref) :
    ∃ u : Uncaught, u.ref = r ∧
      (do
        let c ← classAt thrown
        let message ← throwableMessage r
        fault (.uncaught ⟨r, c.name, message, ← traceOf r⟩) : Exec Unit) vm =
        .error (.fault (.uncaught u)) vm := by
  obtain ⟨message, hmessage⟩ := throwableMessage_total r vm
  rw [bind_apply, classAt_apply_of_some (Array.getElem?_eq_getElem hthrown)]
  dsimp only
  rw [bind_apply, hmessage]
  exact ⟨_, rfl, rfl⟩

/-- What unwinding for the object `r` of class `thrown` comes to. -/
def Unwinds (base : Nat) (r : Ref) (thrown : ClassId) (frames : List Frame) :
    EStateM.Result Stop Vm Unit → Prop
  | .ok () vm => ∃ f h below, Handles vm base thrown frames f h below ∧ 0 < f.maxStack ∧
      vm.frames = { f with stack := [.ref r], pc := h.target.toNat } :: below
  | .error (.fault e) vm =>
      (∀ above f below, frames = above ++ f :: below → base ≤ below.length →
        Passes vm thrown f) ∧
      vm.frames = frames.drop (frames.length - base) ∧
      ∃ u : Uncaught, e = .uncaught u ∧ u.ref = r
  | .error (.defect _) vm => ∃ f h below, Handles vm base thrown frames f h below ∧ f.maxStack = 0
  | .error _ _ => False

theorem unwinds_resume {base : Nat} {r : Ref} {thrown : ClassId} {frames below : List Frame}
    {f : Frame} {vm : Vm} (hstack : f.stack = [])
    (hfinds : ∀ vm' : Vm, vm'.registry = vm.registry →
      FindsFrame vm' base thrown frames (some (f :: below))) :
    Unwinds base r thrown frames
      ((do
        note (.caught r)
        modify ({ · with frames := f :: below })
        onFrame (.push (.ref r)) : Exec Unit) vm) := by
  show Unwinds base r thrown frames (onFrame (.push (.ref r)) { vm with
    frames := f :: below
    journal := .caught r :: vm.journal })
  rw [onFrame_push_apply _ (rfl : _ = f :: below)]
  by_cases hroom : f.stack.length < f.maxStack
  · rw [if_pos hroom]
    obtain ⟨f', h, below', hhandles, heq⟩ := hfinds { vm with
      frames := { f with stack := .ref r :: f.stack } :: below
      journal := .caught r :: vm.journal } rfl
    cases heq
    exact ⟨f', h, below, hhandles, hroom, rfl⟩
  · rw [if_neg hroom]
    obtain ⟨f', h, below', hhandles, heq⟩ := hfinds { vm with
      frames := f :: below
      journal := .caught r :: vm.journal } rfl
    cases heq
    exact ⟨f', h, below, hhandles, Nat.eq_zero_of_not_pos hroom⟩

theorem unwind_exact {vm : Vm} (hlinked : Linked vm) {r : Ref} {o : Object}
    (hobject : vm.heap.get? r = some o) (hclass : o.classId < vm.registry.classes.size)
    (base : Nat) : Unwinds base r o.classId vm.frames (unwind base r vm) := by
  obtain ⟨traces, htraces⟩ := recordTrace_apply r vm
  unfold unwind
  rw [bind_apply, htraces]
  dsimp only
  obtain ⟨frames?, registry, hseek, hseeks⟩ := seekHandler_spec { vm with traces } base
    hlinked.registry hlinked.owners hclass
  have hthrown : classOfObject r { vm with traces } = .ok o.classId { vm with traces } := by
    simp only [classOfObject, bind_apply, get_apply, hobject]
    rfl
  rw [bind_apply, hthrown]
  dsimp only
  rw [bind_apply, get_apply]
  dsimp only
  rw [bind_apply, hseek]
  cases frames? with
  | some frames =>
      obtain ⟨f, below, pc, -, -, rfl⟩ := seekHandler_some hseek
      exact unwinds_resume rfl fun vm' hregistry => hseeks vm' (hregistry ▸ .refl _)
  | none =>
      have hgrows := grows_of_changes ((searches_seekHandler _ _ _).ok hseek).1.1
      obtain ⟨u, hu, hreport⟩ := report_total
        (after (cutTo base) { vm with traces, registry }) (hgrows.lt hclass) r
      dsimp only
      rw [bind_apply, cutTo_apply]
      dsimp only
      rw [hreport]
      exact ⟨hseeks _ (.refl _), rfl, u, rfl, hu⟩

end Exec

/-! ## An exception that its caller handles -/

namespace Caller

def rootClass : Class where
  name := ClassFile.rootClassName
  flags := ClassFile.Access.isPublic
  super? := none
  interfaces := []
  sourceFile := ""
  fields := []
  methods := []
  vtable := .empty
  layout := #[]
  pool := ⟨#[]⟩
  array? := none

def frame (handlers : List Handler) (opPc : Nat) : Frame where
  method := ⟨⟨0, 0⟩, rootClass.name, rootClass.flags, "m", "()V", 0, ⟨[], none, "()V"⟩, none⟩
  body := ⟨1, 1, Array.replicate 8 0, handlers, []⟩
  locals := #[.int 7]
  stack := [.int 3]
  pc := opPc + 1
  opPc

def vm : Vm where
  source := .among [] fun name => .error (.notFound name)
  maxFrames := 8
  registry := (Registry.add {} rootClass .linked #[]).2
  heap := { objects := #[{ classId := 0 }] }
  frames := [frame [⟨0, 4, 6, 0⟩] 4, frame [⟨0, 2, 5, 0⟩, ⟨2, 3, 6, 0⟩] 2, frame [⟨0, 8, 7, 0⟩] 0]

theorem linked_vm : Exec.Linked vm where
  registry := Registry.wellFormed_add Registry.wellFormed_empty ⟨nofun, nofun, nofun, rfl⟩
  owners := by decide

/-- The object is thrown through the innermost frame to the second row of its caller. -/
theorem unwinds_to_caller :
    Exec.Linked vm ∧ vm.heap.get? ⟨1⟩ = some { classId := 0 } ∧ 0 < vm.registry.classes.size ∧
      Exec.Unwinds 1 ⟨1⟩ 0 vm.frames (Exec.unwind 1 ⟨1⟩ vm) ∧
      (Exec.after (Exec.unwind 1 ⟨1⟩) vm).frames =
        [{ frame [⟨0, 2, 5, 0⟩, ⟨2, 3, 6, 0⟩] 2 with stack := [.ref ⟨1⟩], pc := 6 },
          frame [⟨0, 8, 7, 0⟩] 0] :=
  ⟨linked_vm, by decide, by decide,
    Exec.unwind_exact linked_vm (o := { classId := 0 }) (by decide) (by decide) 1, rfl⟩

end Caller

end ClassEngine.Machine
