import ClassEngine.Proofs.Machine.Boundaries
import ClassEngine.Proofs.Machine.FrameInvariants
import ClassEngine.Proofs.Machine.LegalCode

/-!
# Frames within their bounds

The code of a method declares how many local variables a frame has and how many values its stack
may hold.  Work on a frame keeps to both, and to the code itself: all that it reads lies inside of
the code, and so do the targets of jumps.  The one exception is the return from a subroutine, which
goes on wherever the address in a local variable says.
-/

namespace ClassEngine.Machine

open Code

namespace Frame

/-- The frame has the variables that its code declares, and no more values on its stack than the
code allows. -/
structure Contained (f : Frame) : Prop where
  locals : f.locals.size = f.body.maxLocals.toNat
  stack : f.stack.length ≤ f.maxStack

/-- The next byte to read is one of the code, or the code ends there. -/
abbrev Inside (f : Frame) : Prop := f.pc ≤ f.body.code.size

/-- The code is legal, and the frame is within all the bounds that it sets. -/
structure Bounded (f : Frame) : Prop extends f.Contained where
  legal : f.body.Legal
  pc : f.pc ≤ f.body.code.size

/-- The instruction at hand, as the decoder reads it, was a return from a subroutine, and the frame
goes on at the address in the variable that it names. -/
def Returned (f : Frame) : Prop :=
  ∃ (i : Instruction) (next slot : Nat) (address : UInt64),
    Reader.instruction ⟨f.body.code, f.opPc⟩ = .ok i ⟨f.body.code, next⟩ ∧
      i.op.operation? = some (.jump .leaveSubroutine) ∧ i.values = [(slot : Int)] ∧
      f.locals[slot]? = some (.returnAddress address) ∧ f.pc = address.toNat

/-- The frame is within its bounds, only that it may have left them through a return from a
subroutine. -/
structure Landed (f : Frame) : Prop extends f.Contained where
  legal : f.body.Legal
  pc : f.pc ≤ f.body.code.size ∨ f.Returned

theorem Bounded.landed {f : Frame} (h : f.Bounded) : f.Landed :=
  ⟨h.toContained, h.legal, .inl h.pc⟩

end Frame

theorem size_of_storeLocal? {locals locals' : Array Value} {slot : Nat} {v : Value}
    (h : storeLocal? locals slot v = some locals') : locals'.size = locals.size := by
  unfold storeLocal? at h
  split at h
  · split at h <;> cases h
    simp
  · split at h <;> cases h
    simp

namespace FrameM

variable {α β : Type} {f f' : Frame}

/-! ## Variables and stack -/

theorem contains_of_same {x : FrameM α} [Atomic x]
    (h : ∀ {f a f'}, x f = .ok a f' →
      f'.body = f.body ∧ f'.locals = f.locals ∧ f'.stack = f.stack) :
    Keeps Frame.Contained x :=
  .of_ok fun {f a f'} hf hok => by
    obtain ⟨hbody, hlocals, hstack⟩ := h hok
    constructor
    · rw [hbody, hlocals]
      exact hf.locals
    · rw [Frame.maxStack, hbody, hstack]
      exact hf.stack

instance contains_push (v : Value) : Keeps Frame.Contained (push v) :=
  .of_ok fun hf h => by
    obtain ⟨hroom, rfl⟩ := push_eq_ok h
    exact ⟨hf.locals, hroom⟩

theorem contains_forM_push (vs : List Value) : Keeps Frame.Contained (vs.forM push) := by
  induction vs with
  | nil => exact inferInstanceAs (Keeps _ (pure ()))
  | cons v vs ih => exact inferInstanceAs (Keeps _ (push v >>= fun _ => vs.forM push))

theorem contains_entriesFor (stack : List Value) (slots : Nat) :
    Keeps Frame.Contained (entriesFor stack slots) :=
  .of_ok fun hf h => (entriesFor_eq_ok h).2 ▸ hf

theorem contained_overwrite {depth : Nat} {vs : List Value} (hf : f.Contained)
    (hroom : depth + vs.length ≤ f.stack.length) : (after (overwrite depth vs) f).Contained := by
  refine ⟨hf.locals, ?_⟩
  have hlength := hf.stack
  show (f.stack.take depth ++ vs ++ f.stack.drop (depth + vs.length)).length ≤ f.maxStack
  simp only [List.length_append, List.length_take, List.length_drop]
  omega

theorem contains_dup (count skip : Nat) : Keeps Frame.Contained (dup count skip) where
  keeps {f} hf := by
    refine after_bind hf fun _ _ hget _ => ?_
    cases hget
    refine after_bind ((contains_entriesFor _ count).keeps hf) fun n f₁ hn hf₁ => ?_
    obtain ⟨hn, rfl⟩ := entriesFor_eq_ok hn
    refine after_bind ((contains_entriesFor _ skip).keeps hf₁) fun m f₂ hm hf₂ => ?_
    obtain ⟨hm, rfl⟩ := entriesFor_eq_ok hm
    rw [List.length_drop] at hm
    refine after_bind ((contains_forM_push _).keeps hf₂) fun _ f₃ hgrown hf₃ => ?_
    obtain ⟨-, rfl⟩ := forM_push_eq_ok hgrown
    refine after_bind hf₃ fun _ _ hget _ => ?_
    cases hget
    refine after_bind (contained_overwrite hf₃ (by simp)) fun _ f₄ hmoved hf₄ => ?_
    cases hmoved
    exact contained_overwrite hf₄ (by simp; omega)

theorem contains_place (g : Frame → Nat) :
    Keeps Frame.Contained (modify fun f => { f with pc := g f } : FrameM PUnit) :=
  .of_ok (by rintro f _ _ hf ⟨⟩; exact ⟨hf.locals, hf.stack⟩)

instance : Placeless Frame.Contained where
  push := contains_push
  pop := .of_ok fun hf h => by
    obtain ⟨rest, hstack, rfl⟩ := pop_eq_ok h
    have hlength := hf.stack
    rw [hstack, List.length_cons] at hlength
    exact ⟨hf.locals, Nat.le_of_succ_le hlength⟩
  peek depth := .of_ok fun hf h => (peek_eq_ok h).2 ▸ hf
  dropSlots count := .of_ok fun {f _ _} hf h => by
    obtain ⟨n, rfl⟩ := dropSlots_eq_ok h
    exact ⟨hf.locals, (List.drop_sublist n f.stack).length_le.trans hf.stack⟩
  dup := contains_dup
  getLocal slot := .of_ok fun hf h => (getLocal_eq_ok h).2 ▸ hf
  fetch width value? _ := contains_of_same fun h => by
    obtain ⟨-, rfl⟩ := fetch_eq_ok h
    exact ⟨rfl, rfl, rfl⟩
  place := contains_place
  branch offset := contains_of_same fun h => by
    obtain ⟨-, -, rfl⟩ := branch_eq_ok h
    exact ⟨rfl, rfl, rfl⟩

instance (slot : Nat) (v : Value) : Keeps Frame.Contained (setLocal slot v) :=
  .of_ok fun hf h => by
    obtain ⟨locals, hstore, rfl⟩ := setLocal_eq_ok h
    exact ⟨(size_of_storeLocal? hstore).trans hf.locals, hf.stack⟩

instance (m : Method) (body : ClassFile.Body) : Keeps Frame.Contained (takeOperands m body) :=
  .of_ok fun hf h => by
    obtain ⟨args, rest, -, hstack, rfl, -⟩ := takeOperands_eq_ok h
    have hlength := hf.stack
    rw [hstack, List.length_append] at hlength
    exact ⟨hf.locals, (Nat.le_add_left _ _).trans hlength⟩

/-! ## The place in the code -/

theorem keeps_inside {x : FrameM α} [Atomic x] {n : Nat} [hx : Advances n x] :
    Keeps Frame.Inside x :=
  .of_ok fun {f a f'} hf h => by
    have hadvances := hx.advances h
    have hroom := hadvances.room
    show f'.pc ≤ f'.body.code.size
    rw [hadvances.pc, hadvances.body]
    exact Nat.add_le_of_le_sub' hf hroom

theorem inside_forM_push (vs : List Value) : Keeps Frame.Inside (vs.forM push) := by
  induction vs with
  | nil => exact inferInstanceAs (Keeps _ (pure ()))
  | cons v vs ih =>
      have := keeps_inside (x := push v)
      exact inferInstanceAs (Keeps _ (push v >>= fun _ => vs.forM push))

instance : Kept Frame.Inside where
  push _ := keeps_inside
  pop := keeps_inside
  dropSlots _ := keeps_inside
  dup count skip := by
    have hentries (stack : List Value) (slots : Nat) :
        Keeps Frame.Inside (entriesFor stack slots) :=
      .of_ok fun hf h => (entriesFor_eq_ok h).2 ▸ hf
    have hroom := inside_forM_push
    have hcopy (depth : Nat) (vs : List Value) : Keeps Frame.Inside (overwrite depth vs) := ⟨id⟩
    unfold dup
    infer_instance
  peek _ := keeps_inside
  getLocal _ := keeps_inside
  fetch _ _ _ := keeps_inside

instance (slot : Nat) (v : Value) : Keeps Frame.Inside (setLocal slot v) := keeps_inside

instance (m : Method) (body : ClassFile.Body) : Keeps Frame.Inside (takeOperands m body) :=
  .of_ok fun hf h => by
    obtain ⟨args, rest, -, -, rfl, -⟩ := takeOperands_eq_ok h
    exact hf

abbrev Bounding (x : FrameM α) : Prop := Keeps Frame.Bounded x

instance {x : FrameM α} [hx : x.Proper (· = .divisionByZero)] [hcontains : Keeps Frame.Contained x]
    [hinside : Keeps Frame.Inside x] : Bounding x where
  keeps {f} hf := {
    toContained := hcontains.keeps hf.toContained
    legal := (hx.proper f).continues.body ▸ hf.legal
    pc := hinside.keeps hf.pc }

/-- From a place inside of the code the work comes to another one, when it succeeds. -/
class Lands (x : FrameM α) : Prop where
  lands : ∀ {f : Frame} {a : α} {f' : Frame}, f.Inside → x f = .ok a f' → f'.Inside

/-- From wherever the frame is, the work comes to a place inside of the code. -/
class Enters (x : FrameM α) : Prop where
  enters : ∀ {f : Frame} {a : α} {f' : Frame}, x f = .ok a f' → f'.Inside

instance (priority := low) {x : FrameM α} [Keeps Frame.Inside x] : Lands x where
  lands := Keeps.ok

instance (priority := low) {x : FrameM α} [hx : Enters x] : Lands x where
  lands _ h := hx.enters h

instance {x : FrameM α} {g : α → FrameM β} [hx : Lands x] [hg : ∀ a, Lands (g a)] :
    Lands (x >>= g) where
  lands hf h := by
    obtain ⟨a, f₁, h₁, h₂⟩ := bind_eq_ok h
    exact (hg a).lands (hx.lands hf h₁) h₂

instance {x : FrameM α} {g : α → FrameM β} [hg : ∀ a, Enters (g a)] : Enters (x >>= g) where
  enters h := by
    obtain ⟨a, f₁, -, h₂⟩ := bind_eq_ok h
    exact (hg a).enters h₂

instance {c : Prop} [Decidable c] {x y : FrameM α} [hx : Lands x] [hy : Lands y] :
    Lands (if c then x else y) := by
  split
  · exact hx
  · exact hy

instance (offset : Int) : Enters (branch offset) where
  enters h := by
    obtain ⟨-, hinside, rfl⟩ := branch_eq_ok h
    exact Int.toNat_le.mpr hinside.le

theorem inside_jump {op : JumpOp} (hop : op ≠ .leaveSubroutine) : Lands (jump op) := by
  cases op with
  | leaveSubroutine => exact absurd rfl hop
  | _ =>
      simp only [jump, branchIf, callSubroutine]
      infer_instance

/-! ## Returns from subroutines -/

variable {b : UInt8}

/-- The frame on which the instruction at its place has begun. -/
abbrev begun (f : Frame) : Frame := { f with opPc := f.pc, pc := f.pc + 1 }

theorem landed_jump {op : JumpOp} {u : Unit} (hf : (begun f).Bounded)
    (hbyte : f.body.code[f.pc]? = some b) (hop : (⟨b⟩ : Opcode).operation? = some (.jump op))
    (h : jump op (begun f) = .ok u f') : f'.Landed := by
  by_cases hleave : op = .leaveSubroutine
  · subst hleave
    have hcontained := Keeps.ok hf.toContained h
    obtain ⟨index, f₁, h₁, h₂⟩ := bind_eq_ok h
    obtain ⟨hindex, rfl⟩ := fetch_eq_ok h₁
    obtain ⟨address, hslot, rfl⟩ := leaveSubroutine_eq_ok h₂
    have hlayout := (Reader.layout_of_operation hop).2
    have hread := Reader.instruction_of_operands hop nofun hbyte
      (Reader.operands_unsignedByte hlayout hindex)
    exact ⟨hcontained, hf.legal, .inr ⟨_, _, index.toNat, address, hread, hop, rfl, hslot, rfl⟩⟩
  · have hlegal := ((Proper.proper (E := fun _ => False) _).continues_of_ok h).body ▸ hf.legal
    exact ⟨Keeps.ok hf.toContained h, hlegal, .inl ((inside_jump hleave).lands hf.pc h)⟩

theorem landed_widened {u : Unit} (hf : (begun f).Bounded) (hbyte : f.body.code[f.pc]? = some b)
    (hop : (⟨b⟩ : Opcode).operation? = some .wide) (h : widened (begun f) = .ok u f') :
    f'.Landed := by
  have hcontained := Keeps.ok hf.toContained h
  obtain ⟨inner, f₁, h₁, h⟩ := bind_eq_ok h
  have hf₁ : f₁.Bounded := Keeps.ok hf h₁
  obtain ⟨hinner, rfl⟩ := fetch_eq_ok h₁
  obtain ⟨index, f₂, h₂, h⟩ := bind_eq_ok h
  have hf₂ : f₂.Bounded := Keeps.ok hf₁ h₂
  obtain ⟨hindex, rfl⟩ := fetch_eq_ok h₂
  dsimp only at h
  cases hoperation : (⟨inner⟩ : Opcode).operation? with
  | none =>
      rw [hoperation] at h
      cases h
  | some o =>
      rw [hoperation] at h
      cases o with
      | data d =>
          cases d with
          | load => exact (Keeps.ok (x := loadFrom _) hf₂ h).landed
          | store => exact (Keeps.ok (x := storeTo _) hf₂ h).landed
          | increment => exact (Keeps.ok (x := increment _ _) hf₂ h).landed
          | _ => cases h
      | jump j =>
          cases j with
          | leaveSubroutine =>
              obtain ⟨address, hslot, rfl⟩ := leaveSubroutine_eq_ok h
              have hne : (⟨inner⟩ : Opcode).operation? ≠ some (.data .increment) := by
                rw [hoperation]
                nofun
              have hread :=
                Reader.instruction_of_wide hop hbyte hinner (Reader.widened_local hne hindex)
              exact ⟨hcontained, hf.legal,
                .inr ⟨_, _, index.toNat, address, hread, hoperation, rfl, hslot, rfl⟩⟩
          | _ => cases h
      | _ => cases h

/-! ## Checked accesses -/

/-- On this frame the work succeeds when what it is after is there, and otherwise meets the
defect. -/
def Checks (x : FrameM α) (f : Frame) (there : Prop) (d : Defect) : Prop :=
  (there ∧ ∃ a f', x f = .ok a f') ∨ (¬ there ∧ x f = .error (.inr d) f)

theorem checks_fetch {width : Nat} {value? : Array UInt8 → Nat → Option α}
    [hw : Within width value?] (hwidth : 0 < width)
    (hthere : f.pc + width ≤ f.body.code.size → ∃ v, value? f.body.code f.pc = some v) :
    Checks (fetch width value?) f (f.pc + width ≤ f.body.code.size)
      (.truncated f.method.render f.opPc) := by
  unfold Checks
  rw [FrameM.fetch_apply]
  cases hv : value? f.body.code f.pc with
  | some v =>
      have hroom := hw.room hv
      exact .inl ⟨by omega, _, _, rfl⟩
  | none =>
      refine .inr ⟨fun h => ?_, rfl⟩
      obtain ⟨v, hv'⟩ := hthere h
      rw [hv] at hv'
      contradiction

theorem Checks.bind_pure {x : FrameM α} {there : Prop} {d : Defect} (h : Checks x f there d)
    (g : α → β) : Checks (x >>= fun a => pure (g a)) f there d := by
  rcases h with ⟨hthere, a, f', hok⟩ | ⟨hthere, herror⟩
  · exact .inl ⟨hthere, g a, f', by rw [bind_apply, hok]; rfl⟩
  · exact .inr ⟨hthere, by rw [bind_apply, herror]⟩

end FrameM

/-- Every access to the code, the variables and the stack of the frame is checked. -/
structure Frame.Guarded (f : Frame) : Prop where
  byte : FrameM.Checks .u8 f (f.pc + 1 ≤ f.body.code.size) (.truncated f.method.render f.opPc)
  short : FrameM.Checks .u16 f (f.pc + 2 ≤ f.body.code.size) (.truncated f.method.render f.opPc)
  word : FrameM.Checks .i32 f (f.pc + 4 ≤ f.body.code.size) (.truncated f.method.render f.opPc)
  load : ∀ slot, FrameM.Checks (.getLocal slot) f (slot < f.body.maxLocals.toNat)
    (.localRange slot f.method.render)
  store : ∀ slot v, FrameM.Checks (.setLocal slot v) f
    (slot + (if v.isWide then 2 else 1) ≤ f.body.maxLocals.toNat)
    (.localRange slot f.method.render)
  push : ∀ v, FrameM.Checks (.push v) f (f.stack.length < f.body.maxStack.toNat)
    (.stackOverflow f.method.render f.opPc)
  pop : FrameM.Checks .pop f (0 < f.stack.length) (.stackUnderflow f.method.render f.opPc)
  peek : ∀ depth, FrameM.Checks (.peek depth) f (depth < f.stack.length)
    (.stackUnderflow f.method.render f.opPc)
  branch : ∀ offset, FrameM.Checks (.branch offset) f
    (0 ≤ (f.opPc : Int) + offset ∧ (f.opPc : Int) + offset < f.body.code.size)
    (.branchOutside (f.opPc + offset) f.method.render)

theorem Frame.guarded_of_locals {f : Frame} (hf : f.locals.size = f.body.maxLocals.toNat) :
    f.Guarded where
  byte := FrameM.checks_fetch Nat.one_pos Code.Reader.exists_byte
  short := FrameM.checks_fetch Nat.two_pos Code.Reader.exists_read16
  word := (FrameM.checks_fetch (by omega) Code.Reader.exists_read32).bind_pure _
  load slot := by
    unfold FrameM.Checks
    rw [FrameM.getLocal_apply, ← hf]
    cases hv : f.locals[slot]? with
    | some v => exact .inl ⟨(Array.getElem?_eq_some_iff.mp hv).1, v, f, rfl⟩
    | none => exact .inr ⟨Nat.not_lt.mpr (Array.getElem?_eq_none_iff.mp hv), rfl⟩
  store slot v := by
    unfold FrameM.Checks
    rw [FrameM.setLocal_apply, ← hf]
    unfold storeLocal?
    by_cases hwide : v.isWide = true <;> simp only [hwide, if_true, if_false, Bool.false_eq_true]
    · by_cases hroom : slot + 2 ≤ f.locals.size
      · exact .inl ⟨hroom, _, _, by rw [if_pos hroom]⟩
      · exact .inr ⟨hroom, by rw [if_neg hroom]⟩
    · by_cases hroom : slot + 1 ≤ f.locals.size
      · exact .inl ⟨hroom, _, _, by rw [if_pos hroom]⟩
      · exact .inr ⟨hroom, by rw [if_neg hroom]⟩
  push v := by
    unfold FrameM.Checks
    rw [FrameM.push_apply]
    by_cases hroom : f.stack.length < f.maxStack
    · exact .inl ⟨hroom, _, _, if_pos hroom⟩
    · exact .inr ⟨hroom, if_neg hroom⟩
  pop := by
    unfold FrameM.Checks
    rw [FrameM.pop_apply]
    cases f.stack with
    | nil => exact .inr ⟨Nat.lt_irrefl 0, rfl⟩
    | cons v rest => exact .inl ⟨Nat.succ_pos _, _, _, rfl⟩
  peek depth := by
    unfold FrameM.Checks
    rw [FrameM.peek_apply]
    cases hv : f.stack[depth]? with
    | some v => exact .inl ⟨(List.getElem?_eq_some_iff.mp hv).1, v, f, rfl⟩
    | none => exact .inr ⟨Nat.not_lt.mpr (List.getElem?_eq_none_iff.mp hv), rfl⟩
  branch offset := by
    unfold FrameM.Checks
    rw [FrameM.branch_apply]
    split
    · exact .inl ⟨‹_›, _, _, rfl⟩
    · exact .inr ⟨‹_›, rfl⟩

/-! ## New frames -/

theorem bounded_enter {m : Method} {body : ClassFile.Body} {args : List Value}
    {locals : Array Value} (hlegal : body.Legal) (h : bindArguments m body args = .ok locals) :
    (Frame.enter m body locals).Bounded := by
  obtain ⟨-, -, hplaced⟩ := bindArguments_eq_ok h
  have hsize : locals.size = body.maxLocals.toNat :=
    placeFrom_invariant (I := fun locals => locals.size = body.maxLocals.toNat)
      (fun _ hsize hstore => (size_of_storeLocal? hstore).trans hsize) hplaced Array.size_replicate
  exact ⟨⟨hsize, Nat.zero_le _⟩, hlegal, Nat.zero_le _⟩

/-- A handler starts with an empty stack, inside of the code. -/
theorem Frame.Bounded.handling {f : Frame} (h : f.Bounded) {row : ClassFile.Handler}
    (hrow : row ∈ f.body.handlers) : { f with stack := [], pc := row.target.toNat }.Bounded where
  locals := h.locals
  stack := Nat.zero_le _
  legal := h.legal
  pc := Nat.le_of_lt (h.legal.handlers row hrow).2.2

end ClassEngine.Machine
