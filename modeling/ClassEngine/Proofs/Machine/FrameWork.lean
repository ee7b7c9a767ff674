import ClassEngine.Machine.Invocation
import ClassEngine.Machine.Jumps

/-!
# Work on one frame

A step of work on a frame either does one thing to it or refuses with one defect.  Work that is
made of such steps stays with the method of the frame and its code, also when it fails half way,
and almost all that can go wrong in it is a defect of the code.  The one fault is a division by
zero.
-/

namespace ClassEngine.Machine

/-- The other frame is the same activation of a method at another moment. -/
structure Frame.Continues (f f' : Frame) : Prop where
  method : f'.method = f.method
  body : f'.body = f.body

namespace Frame.Continues

variable {f f' f'' : Frame}

theorem refl (f : Frame) : f.Continues f := ⟨rfl, rfl⟩

theorem symm (h : f.Continues f') : f'.Continues f := ⟨h.method.symm, h.body.symm⟩

theorem trans (h : f.Continues f') (h' : f'.Continues f'') : f.Continues f'' :=
  ⟨h'.method.trans h.method, h'.body.trans h.body⟩

end Frame.Continues

/-- The frame executes the code of its method. -/
def Frame.Fits (f : Frame) : Prop := f.method.body? = some f.body

theorem Frame.Fits.continues {f f' : Frame} (hf : f.Fits) (h : f.Continues f') : f'.Fits := by
  rw [Frame.Fits, h.method, h.body]
  exact hf

namespace FrameM

variable {α β : Type}

def after (x : FrameM α) (f : Frame) : Frame :=
  match x f with
  | .ok _ f | .error _ f => f

theorem after_ok {x : FrameM α} {f f' : Frame} {a : α} (h : x f = .ok a f') : after x f = f' := by
  rw [after, h]

theorem after_error {x : FrameM α} {f f' : Frame} {e : Fault ⊕ Defect} (h : x f = .error e f') :
    after x f = f' := by
  rw [after, h]

theorem bind_apply (x : FrameM α) (g : α → FrameM β) (f : Frame) :
    (x >>= g) f =
      match x f with
      | .ok a f => g a f
      | .error e f => .error e f := by
  change EStateM.bind x g f = _
  unfold EStateM.bind
  cases x f <;> rfl

theorem bind_of_ok {x : FrameM α} {g : α → FrameM β} {f f' : Frame} {a : α}
    (h : x f = .ok a f') : (x >>= g) f = g a f' := by
  rw [bind_apply, h]

theorem bind_of_error {x : FrameM α} {g : α → FrameM β} {f f' : Frame} {e : Fault ⊕ Defect}
    (h : x f = .error e f') : (x >>= g) f = .error e f' := by
  rw [bind_apply, h]

theorem bind_eq_ok {x : FrameM α} {g : α → FrameM β} {f f' : Frame} {b : β}
    (h : (x >>= g) f = .ok b f') : ∃ a f₁, x f = .ok a f₁ ∧ g a f₁ = .ok b f' := by
  rw [bind_apply] at h
  cases hx : x f with
  | error e f₁ =>
      rw [hx] at h
      contradiction
  | ok a f₁ =>
      rw [hx] at h
      exact ⟨a, f₁, rfl, h⟩

theorem bind_eq_error {x : FrameM α} {g : α → FrameM β} {f f' : Frame} {e : Fault ⊕ Defect}
    (h : (x >>= g) f = .error e f') :
    x f = .error e f' ∨ ∃ a f₁, x f = .ok a f₁ ∧ g a f₁ = .error e f' := by
  rw [bind_apply] at h
  cases hx : x f with
  | error e' f₁ =>
      rw [hx] at h
      cases h
      exact .inl rfl
  | ok a f₁ =>
      rw [hx] at h
      exact .inr ⟨a, f₁, rfl, h⟩

theorem after_bind {I : Frame → Prop} {x : FrameM α} {g : α → FrameM β} {f : Frame}
    (hx : I (after x f)) (hg : ∀ a f', x f = .ok a f' → I f' → I (after (g a) f')) :
    I (after (x >>= g) f) := by
  cases hcase : x f with
  | ok a f' =>
      rw [after_ok hcase] at hx
      rw [after, bind_of_ok hcase]
      exact hg a f' hcase hx
  | error e f' => rwa [after_error (bind_of_error hcase), ← after_error hcase]

/-- Work that leaves the frame as it was when it fails. -/
class Atomic (x : FrameM α) : Prop where
  eq_of_error : ∀ {f f' : Frame} {e : Fault ⊕ Defect}, x f = .error e f' → f' = f

theorem Atomic.after {I : Frame → Prop} {x : FrameM α} [hx : Atomic x] {f : Frame} (hf : I f)
    (hok : ∀ a f', x f = .ok a f' → I f') : I (after x f) := by
  cases hcase : x f with
  | ok a f' => exact after_ok hcase ▸ hok a f' hcase
  | error e f' => rwa [after_error hcase, hx.eq_of_error hcase]

instance (a : α) : Atomic (pure a : FrameM α) where
  eq_of_error h := by cases h

instance : Atomic (get : FrameM Frame) where
  eq_of_error h := by cases h

instance (f : Frame) : Atomic (set f : FrameM PUnit) where
  eq_of_error h := by cases h

instance (g : Frame → Frame) : Atomic (modify g : FrameM PUnit) where
  eq_of_error h := by cases h

instance (e : Fault ⊕ Defect) : Atomic (throw e : FrameM α) where
  eq_of_error := by
    rintro f _ _ ⟨⟩
    rfl

instance (d : String → Nat → Defect) : Atomic (defectAt d : FrameM α) where
  eq_of_error := by
    rintro f _ _ ⟨⟩
    rfl

instance (e : Fault) : Atomic (fault e : FrameM α) where
  eq_of_error := by
    rintro f _ _ ⟨⟩
    rfl

/-! ## What the steps of work do -/

section

variable {f f' : Frame} {u : Unit} {v : Value}

theorem push_apply (v : Value) (f : Frame) :
    push v f =
      if f.stack.length < f.maxStack then .ok () { f with stack := v :: f.stack }
      else .error (.inr (.stackOverflow f.method.render f.opPc)) f := by
  unfold push
  by_cases hroom : f.stack.length < f.maxStack
  · rw [if_pos hroom]
    exact congrFun (if_pos hroom) f
  · rw [if_neg hroom]
    exact congrFun (if_neg hroom) f

instance (v : Value) : Atomic (push v) where
  eq_of_error h := by
    rw [push_apply] at h
    split at h <;> cases h
    rfl

theorem push_eq_ok (h : push v f = .ok u f') :
    f.stack.length < f.maxStack ∧ f' = { f with stack := v :: f.stack } := by
  rw [push_apply] at h
  split at h
  · cases h
    exact ⟨‹_›, rfl⟩
  · contradiction

theorem pop_apply (f : Frame) :
    pop f =
      match f.stack with
      | v :: rest => .ok v { f with stack := rest }
      | [] => .error (.inr (.stackUnderflow f.method.render f.opPc)) f := by
  change (match f.stack with
    | v :: rest => (do set { f with stack := rest }; return v : FrameM Value)
    | [] => defectAt .stackUnderflow) f = _
  cases f.stack <;> rfl

instance : Atomic pop where
  eq_of_error h := by
    rw [pop_apply] at h
    split at h <;> cases h
    rfl

theorem pop_eq_ok (h : pop f = .ok v f') :
    ∃ rest, f.stack = v :: rest ∧ f' = { f with stack := rest } := by
  rw [pop_apply] at h
  split at h
  · cases h
    exact ⟨_, ‹_›, rfl⟩
  · contradiction

theorem peek_apply (depth : Nat) (f : Frame) :
    peek depth f =
      match f.stack[depth]? with
      | some v => .ok v f
      | none => .error (.inr (.stackUnderflow f.method.render f.opPc)) f := by
  change (match f.stack[depth]? with
    | some v => (return v : FrameM Value)
    | none => defectAt .stackUnderflow) f = _
  cases f.stack[depth]? <;> rfl

instance (depth : Nat) : Atomic (peek depth) where
  eq_of_error h := by
    rw [peek_apply] at h
    split at h <;> cases h
    rfl

theorem peek_eq_ok {depth : Nat} (h : peek depth f = .ok v f') :
    f.stack[depth]? = some v ∧ f' = f := by
  rw [peek_apply] at h
  split at h
  · cases h
    exact ⟨‹_›, rfl⟩
  · contradiction

theorem entriesFor_eq_ok {stack : List Value} {slots n : Nat}
    (h : entriesFor stack slots f = .ok n f') : n ≤ stack.length ∧ f' = f := by
  fun_induction entriesFor stack slots generalizing n with
  | case1 =>
      cases h
      exact ⟨Nat.zero_le _, rfl⟩
  | case2 => cases h
  | case3 => cases h
  | case4 v rest _ _ ih | case5 v rest _ _ ih =>
      obtain ⟨m, f₁, hrest, h⟩ := bind_eq_ok h
      cases h
      exact ⟨Nat.succ_le_succ (ih hrest).1, (ih hrest).2⟩

instance atomic_entriesFor (stack : List Value) (slots : Nat) :
    Atomic (entriesFor stack slots) where
  eq_of_error {f f' e} h := by
    fun_induction entriesFor stack slots with
    | case1 => cases h
    | case2 | case3 =>
        cases h
        rfl
    | case4 v rest _ _ ih | case5 v rest _ _ ih =>
        rcases bind_eq_error h with h | ⟨_, _, -, h⟩
        · exact ih h
        · cases h

instance (count : Nat) : Atomic (dropSlots count) where
  eq_of_error h := by
    rcases bind_eq_error h with h | ⟨_, _, hget, h⟩
    · cases h
    · cases hget
      rcases bind_eq_error h with h | ⟨_, _, -, h⟩
      · exact (atomic_entriesFor _ count).eq_of_error h
      · cases h

theorem dropSlots_eq_ok {count : Nat} (h : dropSlots count f = .ok u f') :
    ∃ n, f' = { f with stack := f.stack.drop n } := by
  obtain ⟨f₁, _, hget, h⟩ := bind_eq_ok h
  cases hget
  obtain ⟨n, f₁, -, h⟩ := bind_eq_ok h
  cases h
  exact ⟨n, rfl⟩

theorem forM_push_eq_ok {vs : List Value} (h : vs.forM push f = .ok u f') :
    (vs = [] ∨ f.stack.length + vs.length ≤ f.maxStack) ∧
      f' = { f with stack := vs.reverse ++ f.stack } := by
  induction vs generalizing f with
  | nil =>
      cases h
      exact ⟨.inl rfl, rfl⟩
  | cons v vs ih =>
      obtain ⟨_, f₁, hpush, h⟩ := bind_eq_ok (x := push v) (g := fun _ => vs.forM push) h
      obtain ⟨hroom, rfl⟩ := push_eq_ok hpush
      obtain ⟨hrest, rfl⟩ := ih h
      refine ⟨.inr ?_, by simp⟩
      rcases hrest with rfl | hrest
      · exact hroom
      · simp only [List.length_cons, Frame.maxStack] at hrest hroom ⊢
        omega

theorem overwrite_apply (depth : Nat) (vs : List Value) (f : Frame) :
    overwrite depth vs f = .ok () { f with
      stack := f.stack.take depth ++ vs ++ f.stack.drop (depth + vs.length) } := rfl

/-- Making room and copying twice puts a copy of the top `n` entries beneath the `m` under
them. -/
theorem shifted_eq (stack : List Value) {n m : Nat} (hfits : n + m ≤ stack.length) :
    let grown := List.replicate n Value.top ++ stack
    let moved := (grown.drop n).take (n + m) ++ grown.drop (n + m)
    moved.take (n + m) ++ stack.take n ++ moved.drop (n + m + n) =
      stack.take (n + m) ++ stack.take n ++ stack.drop (n + m) := by
  intro grown moved
  have hroom : grown.drop n = stack := List.drop_left' List.length_replicate
  have htop : (stack.take (n + m)).length = n + m := List.length_take_of_le hfits
  have hmoved : moved = stack.take (n + m) ++ grown.drop (n + m) := by rw [← hroom]
  have hkept : moved.drop (n + m + n) = stack.drop (n + m) := by
    rw [hmoved, ← List.drop_drop, List.drop_left' htop, List.drop_drop, Nat.add_comm,
      ← List.drop_drop, hroom]
  rw [hkept, hmoved, List.take_left' htop]

theorem copyBeneath_apply {n m : Nat} (hfits : n + m ≤ f.stack.length) :
    (do
      let grown ← get
      overwrite 0 ((grown.stack.drop n).take (n + m))
      overwrite (n + m) (f.stack.take n) : FrameM Unit)
      { f with stack := List.replicate n .top ++ f.stack } =
    .ok () { f with
      stack := f.stack.take (n + m) ++ f.stack.take n ++ f.stack.drop (n + m) } := by
  have htop : (f.stack.take (n + m)).length = n + m := List.length_take_of_le hfits
  have hcopy : (f.stack.take n).length = n := List.length_take_of_le (by omega)
  have hget (g : Frame) : (get : FrameM Frame) g = .ok g g := rfl
  rw [← shifted_eq f.stack hfits, bind_of_ok (hget _), bind_of_ok (overwrite_apply ..),
    overwrite_apply]
  simp [htop, hcopy]

theorem dup_eq_ok {count skip : Nat} (h : dup count skip f = .ok u f') :
    ∃ n m, (n = 0 ∨ f.stack.length + n ≤ f.maxStack) ∧ n + m ≤ f.stack.length ∧
      f' = { f with stack := f.stack.take (n + m) ++ f.stack.take n ++ f.stack.drop (n + m) } := by
  obtain ⟨_, _, hget, h⟩ := bind_eq_ok h
  cases hget
  obtain ⟨n, f₁, hn, h⟩ := bind_eq_ok h
  obtain ⟨hn, rfl⟩ := entriesFor_eq_ok hn
  obtain ⟨m, f₂, hm, h⟩ := bind_eq_ok h
  obtain ⟨hm, rfl⟩ := entriesFor_eq_ok hm
  rw [List.length_drop] at hm
  obtain ⟨_, grown, hgrown, h⟩ := bind_eq_ok h
  obtain ⟨hroom, rfl⟩ := forM_push_eq_ok hgrown
  rw [List.length_replicate, List.replicate_eq_nil_iff] at hroom
  rw [List.reverse_replicate, copyBeneath_apply (by omega)] at h
  cases h
  exact ⟨n, m, hroom, by omega, rfl⟩

theorem getLocal_apply (slot : Nat) (f : Frame) :
    getLocal slot f =
      match f.locals[slot]? with
      | some v => .ok v f
      | none => .error (.inr (.localRange slot f.method.render)) f := by
  change (match f.locals[slot]? with
    | some v => (return v : FrameM Value)
    | none => throw (Sum.inr (Defect.localRange slot f.method.render))) f = _
  cases f.locals[slot]? <;> rfl

instance (slot : Nat) : Atomic (getLocal slot) where
  eq_of_error h := by
    rw [getLocal_apply] at h
    split at h <;> cases h
    rfl

theorem getLocal_eq_ok {slot : Nat} (h : getLocal slot f = .ok v f') :
    f.locals[slot]? = some v ∧ f' = f := by
  rw [getLocal_apply] at h
  split at h
  · cases h
    exact ⟨‹_›, rfl⟩
  · contradiction

theorem setLocal_apply (slot : Nat) (v : Value) (f : Frame) :
    setLocal slot v f =
      match storeLocal? f.locals slot v with
      | some locals => .ok () { f with locals }
      | none => .error (.inr (.localRange slot f.method.render)) f := by
  change (match storeLocal? f.locals slot v with
    | some locals => (set { f with locals } : FrameM Unit)
    | none => throw (Sum.inr (Defect.localRange slot f.method.render))) f = _
  cases storeLocal? f.locals slot v <;> rfl

instance (slot : Nat) (v : Value) : Atomic (setLocal slot v) where
  eq_of_error h := by
    rw [setLocal_apply] at h
    split at h <;> cases h
    rfl

theorem setLocal_eq_ok {slot : Nat} (h : setLocal slot v f = .ok u f') :
    ∃ locals, storeLocal? f.locals slot v = some locals ∧ f' = { f with locals } := by
  rw [setLocal_apply] at h
  split at h
  · cases h
    exact ⟨_, ‹_›, rfl⟩
  · contradiction

theorem fetch_apply (width : Nat) (value? : Array UInt8 → Nat → Option α) (f : Frame) :
    fetch width value? f =
      match value? f.body.code f.pc with
      | some v => .ok v { f with pc := f.pc + width }
      | none => .error (.inr (.truncated f.method.render f.opPc)) f := by
  change (match value? f.body.code f.pc with
    | some v => (do set { f with pc := f.pc + width }; return v : FrameM α)
    | none => defectAt .truncated) f = _
  cases value? f.body.code f.pc <;> rfl

instance (width : Nat) (value? : Array UInt8 → Nat → Option α) : Atomic (fetch width value?) where
  eq_of_error h := by
    rw [fetch_apply] at h
    split at h <;> cases h
    rfl

theorem fetch_eq_ok {width : Nat} {value? : Array UInt8 → Nat → Option α} {a : α}
    (h : fetch width value? f = .ok a f') :
    value? f.body.code f.pc = some a ∧ f' = { f with pc := f.pc + width } := by
  rw [fetch_apply] at h
  split at h
  · cases h
    exact ⟨‹_›, rfl⟩
  · contradiction

theorem branch_apply (offset : Int) (f : Frame) :
    branch offset f =
      if 0 ≤ (f.opPc : Int) + offset ∧ (f.opPc : Int) + offset < f.body.code.size then
        .ok () { f with pc := ((f.opPc : Int) + offset).toNat }
      else .error (.inr (.branchOutside (f.opPc + offset) f.method.render)) f := by
  by_cases hout : ((f.opPc : Int) + offset < 0 || (f.body.code.size : Int) ≤ f.opPc + offset) = true
  · have hnot : ¬ (0 ≤ (f.opPc : Int) + offset ∧ (f.opPc : Int) + offset < f.body.code.size) := by
      simp only [Bool.or_eq_true, decide_eq_true_eq] at hout
      omega
    rw [if_neg hnot]
    exact congrFun (if_pos hout) f
  · have hin : 0 ≤ (f.opPc : Int) + offset ∧ (f.opPc : Int) + offset < f.body.code.size := by
      simp only [Bool.or_eq_true, decide_eq_true_eq] at hout
      omega
    rw [if_pos hin]
    exact congrFun (if_neg hout) f

instance (offset : Int) : Atomic (branch offset) where
  eq_of_error h := by
    rw [branch_apply] at h
    split at h <;> cases h
    rfl

theorem branch_eq_ok {offset : Int} (h : branch offset f = .ok u f') :
    0 ≤ (f.opPc : Int) + offset ∧ (f.opPc : Int) + offset < f.body.code.size ∧
      f' = { f with pc := ((f.opPc : Int) + offset).toNat } := by
  rw [branch_apply] at h
  split at h
  · rename_i hinside
    cases h
    exact ⟨hinside.1, hinside.2, rfl⟩
  · contradiction

end

/-! ## Proper work -/

variable {E : Fault → Prop}

/-- Work on the frame `f` that stays with its method, and whose faults are among those of `E`. -/
structure ProperAt (E : Fault → Prop) (f : Frame) (x : FrameM α) : Prop where
  of_fault : ∀ {e : Fault} {f' : Frame}, x f = .error (.inl e) f' → E e
  continues : f.Continues (after x f)

class Proper (E : Fault → Prop) (x : FrameM α) : Prop where
  proper : ∀ f, ProperAt E f x

section

variable {f f' : Frame} {x : FrameM α}

theorem ProperAt.continues_of_ok {a : α} (hx : ProperAt E f x) (h : x f = .ok a f') :
    f.Continues f' :=
  after_ok h ▸ hx.continues

theorem ProperAt.continues_of_error {e : Fault ⊕ Defect} (hx : ProperAt E f x)
    (h : x f = .error e f') : f.Continues f' :=
  after_error h ▸ hx.continues

theorem ProperAt.bind {g : α → FrameM β} (hx : ProperAt E f x)
    (hg : ∀ a f', f.Continues f' → ProperAt E f' (g a)) : ProperAt E f (x >>= g) := by
  cases hcase : x f with
  | error e f' =>
      have hbind := bind_of_error (g := g) hcase
      constructor
      · intro e' f'' h
        rw [hbind] at h
        cases h
        exact hx.of_fault hcase
      · rw [after_error hbind]
        exact hx.continues_of_error hcase
  | ok a f' =>
      have hbind := bind_of_ok (g := g) hcase
      have hcontinues := hx.continues_of_ok hcase
      have hrest := hg a f' hcontinues
      constructor
      · intro e f'' h
        rw [hbind] at h
        exact hrest.of_fault h
      · rw [after, hbind]
        exact hcontinues.trans hrest.continues

end

theorem properAt_set {f f' : Frame} (h : f.Continues f') :
    ProperAt E f (set f' : FrameM PUnit) :=
  ⟨fun h => (by cases h), h⟩

theorem properAt_set_return {f f' : Frame} (h : f.Continues f') (a : α) :
    ProperAt E f (do set f'; return a : FrameM α) :=
  ⟨fun h => (by cases h), h⟩

theorem Proper.get_bind {g : Frame → FrameM α} (hg : ∀ f, ProperAt E f (g f)) :
    Proper E (get >>= g) where
  proper f := ⟨(hg f).of_fault, (hg f).continues⟩

theorem Proper.bind {x : FrameM α} {g : α → FrameM β} (hx : Proper E x)
    (hg : ∀ a, Proper E (g a)) : Proper E (x >>= g) where
  proper f := (hx.proper f).bind fun a f' _ => (hg a).proper f'

theorem proper_modify {g : Frame → Frame} (hg : ∀ f : Frame, f.Continues (g f)) :
    Proper E (modify g : FrameM PUnit) where
  proper f := ⟨fun h => (by cases h), hg f⟩

theorem Proper.of_stays {x : FrameM α} (hfault : ∀ f e f', x f ≠ .error (.inl e) f')
    (hstays : ∀ f, after x f = f) : Proper E x where
  proper f := ⟨fun h => absurd h (hfault f _ _), (hstays f).symm ▸ .refl f⟩

instance (a : α) : Proper E (pure a : FrameM α) := .of_stays (fun _ _ _ => nofun) fun _ => rfl

instance {x : FrameM α} {g : α → FrameM β} [hx : Proper E x] [hg : ∀ a, Proper E (g a)] :
    Proper E (x >>= g) :=
  hx.bind hg

instance {c : Prop} [Decidable c] {x y : FrameM α} [hx : Proper E x] [hy : Proper E y] :
    Proper E (if c then x else y) := by
  split
  · exact hx
  · exact hy

instance : Proper E (get : FrameM Frame) := .of_stays (fun _ _ _ => nofun) fun _ => rfl

instance (d : Defect) : Proper E (throw (.inr d) : FrameM α) :=
  .of_stays (fun _ _ _ => nofun) fun _ => rfl

instance (d : String → Nat → Defect) : Proper E (defectAt d : FrameM α) := by
  unfold defectAt
  infer_instance

instance : Proper (· = .divisionByZero) (fault .divisionByZero : FrameM α) where
  proper f := ⟨by rintro e _ ⟨⟩; rfl, .refl f⟩

/-! ## The operand stack -/

instance (v : Value) : Proper E (push v) := by
  refine .get_bind fun f => ?_
  split
  · exact properAt_set ⟨rfl, rfl⟩
  · exact Proper.proper f

instance : Proper E pop := by
  refine .get_bind fun f => ?_
  cases f.stack with
  | nil => exact Proper.proper f
  | cons v rest => exact properAt_set_return (by exact ⟨rfl, rfl⟩) v

instance (depth : Nat) : Proper E (peek depth) := by
  unfold peek
  refine .bind inferInstance fun f => ?_
  cases f.stack[depth]? <;> infer_instance

instance (v : Int32) : Proper E (pushInt v) := by
  unfold pushInt
  infer_instance

instance : Proper E popInt := by
  unfold popInt
  infer_instance

instance : Proper E popLong := by
  unfold popLong
  infer_instance

instance : Proper E popFloat := by
  unfold popFloat
  infer_instance

instance : Proper E popDouble := by
  unfold popDouble
  infer_instance

instance : Proper E popRef := by
  unfold popRef
  infer_instance

instance proper_entriesFor (stack : List Value) (slots : Nat) :
    Proper E (entriesFor stack slots) := by
  fun_induction entriesFor stack slots <;> infer_instance

instance (count : Nat) : Proper E (dropSlots count) := by
  refine .get_bind fun f => ?_
  refine ((proper_entriesFor f.stack count).proper f).bind fun n f' h => ?_
  exact properAt_set (h.symm.trans ⟨rfl, rfl⟩)

instance proper_forM_push (vs : List Value) : Proper E (vs.forM push) := by
  induction vs with
  | nil => exact inferInstanceAs (Proper E (pure ()))
  | cons v vs ih =>
      exact inferInstanceAs (Proper E (push v >>= fun _ => vs.forM push))

instance (depth : Nat) (vs : List Value) : Proper E (overwrite depth vs) :=
  proper_modify fun _ => ⟨rfl, rfl⟩

instance (count skip : Nat) : Proper E (dup count skip) := by
  unfold dup
  infer_instance

instance : Proper E swap := by
  unfold swap
  infer_instance

/-! ## Local variables and the instruction stream -/

instance (slot : Nat) : Proper E (getLocal slot) := by
  unfold getLocal
  refine .bind inferInstance fun f => ?_
  cases f.locals[slot]? <;> infer_instance

instance (slot : Nat) (v : Value) : Proper E (setLocal slot v) := by
  refine .get_bind fun f => ?_
  cases storeLocal? f.locals slot v with
  | none => exact Proper.proper f
  | some locals => exact properAt_set ⟨rfl, rfl⟩

instance (count : Nat) : Proper E (need count) := by
  unfold need
  infer_instance

instance (width : Nat) (value? : Array UInt8 → Nat → Option α) : Proper E (fetch width value?) := by
  refine .get_bind fun f => ?_
  cases value? f.body.code f.pc with
  | none => exact Proper.proper f
  | some v => exact properAt_set_return (by exact ⟨rfl, rfl⟩) v

instance : Proper E u8 := by
  unfold u8
  infer_instance

instance : Proper E u16 := by
  unfold u16
  infer_instance

instance : Proper E i8 := by
  unfold i8
  infer_instance

instance : Proper E i16 := by
  unfold i16
  infer_instance

instance : Proper E i32 := by
  unfold i32
  infer_instance

instance : Proper E align := proper_modify fun _ => ⟨rfl, rfl⟩

instance (count : Nat) : Proper E (skip count) := proper_modify fun _ => ⟨rfl, rfl⟩

instance (offset : Int) : Proper E (branch offset) := by
  refine .get_bind fun f => ?_
  dsimp only
  split
  · exact Proper.proper f
  · exact properAt_set ⟨rfl, rfl⟩

instance : Proper E beginInstruction := proper_modify fun _ => ⟨rfl, rfl⟩

/-! ## Instructions -/

instance (part : Code.Division) : Proper (· = .divisionByZero) (divideInts part) := by
  unfold divideInts
  refine .bind inferInstance fun b => .bind inferInstance fun a => ?_
  cases intDivide? part a b <;> infer_instance

instance (part : Code.Division) : Proper (· = .divisionByZero) (divideLongs part) := by
  unfold divideLongs
  refine .bind inferInstance fun b => .bind inferInstance fun a => ?_
  cases longDivide? part a b <;> infer_instance

instance (slot : Nat) : Proper E (loadFrom slot) := by
  unfold loadFrom
  infer_instance

instance (slot : Nat) : Proper E (storeTo slot) := by
  unfold storeTo
  infer_instance

instance (slot : Nat) (delta : FrameM Int32) [Proper E delta] :
    Proper E (increment slot delta) := by
  unfold increment
  infer_instance

instance (op : Code.DataOp) : Proper (· = .divisionByZero) (data op) := by
  cases op <;> simp only [data, intOp, longOp, floatOp, doubleOp] <;> infer_instance

instance (key : Int32) : Proper E (tableSwitch key) := by
  unfold tableSwitch
  infer_instance

instance (key : Int32) : Proper E (lookupSwitch key) := by
  unfold lookupSwitch
  infer_instance

instance (offset : Int16) (condition : Bool) : Proper E (branchIf offset condition) := by
  unfold branchIf
  infer_instance

instance (offset : Int) : Proper E (callSubroutine offset) := by
  unfold callSubroutine
  infer_instance

instance (slot : Nat) : Proper E (leaveSubroutine slot) := by
  unfold leaveSubroutine
  refine .bind inferInstance fun v => ?_
  cases v with
  | returnAddress pc => exact proper_modify fun _ => ⟨rfl, rfl⟩
  | _ => infer_instance

instance (op : Code.JumpOp) : Proper E (jump op) := by
  cases op <;> simp only [jump] <;> infer_instance

instance : Proper E widened := by
  unfold widened
  refine .bind inferInstance fun byte => .bind inferInstance fun slot => ?_
  dsimp only
  split <;> infer_instance

end FrameM

/-! ## Arguments of a new frame -/

theorem placeFrom_invariant {I : Array Value → Prop} {args : List Value} {slot : Nat}
    {locals locals' : Array Value}
    (hstore : ∀ {v slot locals locals'}, v ∈ args → I locals →
      storeLocal? locals slot v = some locals' → I locals')
    (h : placeFrom slot locals args = some locals') (hlocals : I locals) : I locals' := by
  fun_induction placeFrom slot locals args with
  | case1 =>
      cases h
      exact hlocals
  | case2 => cases h
  | case3 slot locals v rest next hnext ih =>
      exact ih (fun hv => hstore (List.mem_cons_of_mem v hv)) h
        (hstore List.mem_cons_self hlocals hnext)

theorem bindArguments_eq_ok {m : Method} {body : ClassFile.Body} {args : List Value}
    {locals : Array Value} (h : bindArguments m body args = .ok locals) :
    receiverMismatch? m args = none ∧
      mismatch? m.render 0 (if m.isStatic then args else args.drop 1) m.signature.params = none ∧
      placeFrom 0 (Frame.unsetLocals body) args = some locals := by
  unfold bindArguments at h
  dsimp only at h
  split at h
  · cases h
  · cases h
  · rename_i hreceiver hmismatch
    split at h
    · cases h
    · split at h <;> cases h
      exact ⟨hreceiver, hmismatch, ‹_›⟩

/-! ## Operands of a call -/

namespace FrameM

variable {m : Method} {body : ClassFile.Body} {f f' : Frame} {u : Unit}

theorem checkReceiver_apply (m : Method) (operands : List Value) (f : Frame) :
    checkReceiver m operands f =
      match receiverMismatch? m operands with
      | none => .ok () f
      | some d => .error (.inr d) f := by
  cases operands with
  | nil => rfl
  | cons receiver rest =>
      unfold checkReceiver receiverMismatch?
      dsimp only
      split <;> rfl

theorem checkOperands_apply (m : Method) (index : Nat) (vs : List Value)
    (ps : List ClassFile.FieldType) (f : Frame) :
    checkOperands m index vs ps f =
      match mismatch? m.render index vs ps with
      | none => .ok () f
      | some d => .error (.inr d) f := by
  fun_induction checkOperands m index vs ps with
  | case1 index v vs p ps hkind ih =>
      rw [mismatch?, if_pos hkind]
      exact ih
  | case2 index v vs p ps hkind =>
      rw [mismatch?, if_neg hkind]
      rfl
  | case3 vs index ps hne =>
      have hnone : mismatch? m.render index vs ps = none := by
        unfold mismatch?
        split
        · exact (hne _ _ _ _ rfl rfl).elim
        · rfl
      rw [hnone]
      rfl

theorem storeOperands_eq_ok_iff {slot : Nat} {operands : List Value} {f f' : Frame} :
    storeOperands slot operands f = .ok u f' ↔
      ∃ locals, placeFrom slot f.locals operands = some locals ∧ f' = { f with locals } := by
  induction operands generalizing slot f with
  | nil =>
      constructor
      · rintro ⟨⟩
        exact ⟨_, rfl, rfl⟩
      · rintro ⟨_, ⟨⟩, rfl⟩
        rfl
  | cons v rest ih =>
      rw [storeOperands, bind_apply, setLocal_apply, placeFrom]
      cases storeLocal? f.locals slot v with
      | none => simp
      | some locals => exact ih

theorem takeOperands_apply (m : Method) (body : ClassFile.Body) (f : Frame) :
    takeOperands m body f =
      if f.stack.length < m.arity then
        .error (.inr (.missingArguments m.render m.arity f.stack.length)) f
      else
        let operands := (f.stack.take m.arity).reverse
        match receiverMismatch? m operands,
          mismatch? m.render 0 (if m.isStatic then operands else operands.drop 1)
            m.signature.params with
        | some d, _ | none, some d => .error (.inr d) f
        | none, none =>
          let callee := Frame.enter m body (Frame.unsetLocals body)
          if callee.locals.size < m.argSlots then
            .error (.inr (.argumentSlots m.render callee.locals.size m.argSlots)) f
          else
            match storeOperands 0 operands callee with
            | .error e _ => .error e f
            | .ok () callee => .ok callee.locals { f with stack := f.stack.drop m.arity } := by
  unfold takeOperands
  rw [bind_of_ok (rfl : (get : FrameM Frame) f = .ok f f)]
  dsimp only
  split
  · rfl
  · rw [bind_apply, checkReceiver_apply]
    cases receiverMismatch? m (f.stack.take m.arity).reverse with
    | some d => rfl
    | none =>
        dsimp only
        rw [bind_apply, checkOperands_apply]
        cases mismatch? m.render 0 (if m.isStatic then (f.stack.take m.arity).reverse
          else (f.stack.take m.arity).reverse.drop 1) m.signature.params with
        | some d => rfl
        | none =>
            dsimp only
            split
            · rfl
            · cases storeOperands 0 (f.stack.take m.arity).reverse
                (.enter m body (Frame.unsetLocals body)) <;> rfl

theorem takeOperands_eq_ok {locals : Array Value} (h : takeOperands m body f = .ok locals f') :
    ∃ args rest, args.length = m.arity ∧ f.stack = args.reverse ++ rest ∧
      f' = { f with stack := rest } ∧ bindArguments m body args = .ok locals := by
  rw [takeOperands_apply] at h
  split at h
  · cases h
  rename_i henough
  dsimp only at h
  split at h
  · cases h
  · cases h
  rename_i hreceiver hmismatch
  split at h
  · cases h
  rename_i hslots
  split at h
  · cases h
  rename_i hstored
  obtain ⟨locals, hplaced, rfl⟩ := storeOperands_eq_ok_iff.mp hstored
  cases h
  refine ⟨(f.stack.take m.arity).reverse, f.stack.drop m.arity, ?_, ?_, rfl, ?_⟩
  · rw [List.length_reverse, List.length_take, Nat.min_eq_left (Nat.le_of_not_lt henough)]
  · rw [List.reverse_reverse, List.take_append_drop]
  · have hplaced : placeFrom 0 (Frame.unsetLocals body) (f.stack.take m.arity).reverse =
        some locals := hplaced
    have hslots : ¬ (Frame.unsetLocals body).size < m.argSlots := hslots
    simp only [bindArguments, hreceiver, hmismatch, if_neg hslots, hplaced]

theorem storeOperands_eq_error {slot : Nat} {operands : List Value} {e : Fault ⊕ Defect}
    {f f' : Frame} (h : storeOperands slot operands f = .error e f') : ∃ d, e = .inr d := by
  induction operands generalizing slot f with
  | nil => cases h
  | cons v rest ih =>
      rw [storeOperands, bind_apply, setLocal_apply] at h
      cases hstore : storeLocal? f.locals slot v with
      | none =>
          rw [hstore] at h
          cases h
          exact ⟨_, rfl⟩
      | some locals =>
          rw [hstore] at h
          exact ih h

/-- A call that fails to take its operands leaves them on the stack. -/
theorem takeOperands_eq_error {e : Fault ⊕ Defect} (h : takeOperands m body f = .error e f') :
    (∃ d, e = .inr d) ∧ f' = f := by
  rw [takeOperands_apply] at h
  split at h
  · cases h
    exact ⟨⟨_, rfl⟩, rfl⟩
  dsimp only at h
  split at h
  · cases h
    exact ⟨⟨_, rfl⟩, rfl⟩
  · cases h
    exact ⟨⟨_, rfl⟩, rfl⟩
  split at h
  · cases h
    exact ⟨⟨_, rfl⟩, rfl⟩
  split at h
  · rename_i hstored
    cases h
    exact ⟨storeOperands_eq_error hstored, rfl⟩
  · cases h

instance (m : Method) (body : ClassFile.Body) : Atomic (takeOperands m body) :=
  ⟨fun h => (takeOperands_eq_error h).2⟩

instance (m : Method) (body : ClassFile.Body) : Proper E (takeOperands m body) where
  proper f := by
    constructor
    · intro e f' h
      obtain ⟨⟨d, hd⟩, -⟩ := takeOperands_eq_error h
      cases hd
    · refine Atomic.after (.refl f) fun locals f' h => ?_
      obtain ⟨args, rest, -, -, rfl, -⟩ := takeOperands_eq_ok h
      exact ⟨rfl, rfl⟩

end FrameM

end ClassEngine.Machine
