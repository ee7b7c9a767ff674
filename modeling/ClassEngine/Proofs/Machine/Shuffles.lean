import ClassEngine.Proofs.Machine.FrameWork
import ClassEngine.Proofs.Machine.Rounds

/-!
# Shuffles, slot by slot

A long or double is one entry of the operand stack and takes two slots.  A shuffle is defined on
slots and knows nothing of values; the machine moves entries.  The two agree wherever the shuffle
does not cut a long or double in two.
-/

namespace ClassEngine.Machine

/-! ## Slots -/

inductive Slot where
  | narrow (v : Value)
  /-- The upper slot of a long or double. -/
  | upper (v : Value)
  | lower (v : Value)
  deriving DecidableEq, Repr

namespace Slot

def ofValue (v : Value) : List Slot := if v.isWide then [upper v, lower v] else [narrow v]

def isLower : Slot → Bool
  | lower _ => true
  | _ => false

def entries (slots : List Slot) : Nat := slots.countP fun s => !s.isLower

/-- The operand stack slot by slot, the top first. -/
def expand (stack : List Value) : List Slot := stack.flatMap ofValue

theorem expand_cons (v : Value) (stack : List Value) :
    expand (v :: stack) = ofValue v ++ expand stack :=
  List.flatMap_cons

theorem expand_append (above below : List Value) :
    expand (above ++ below) = expand above ++ expand below :=
  List.flatMap_append

theorem ofValue_of_isWide {v : Value} (h : v.isWide = true) : ofValue v = [upper v, lower v] :=
  if_pos h

theorem ofValue_of_not_isWide {v : Value} (h : ¬ v.isWide = true) : ofValue v = [narrow v] :=
  if_neg h

theorem expand_injective : Function.Injective expand := by
  intro stack stack' h
  induction stack generalizing stack' with
  | nil =>
      cases stack' with
      | nil => rfl
      | cons v' stack' =>
          rw [expand_cons, ofValue] at h
          split at h <;> cases h
  | cons v stack ih =>
      cases stack' with
      | nil =>
          rw [expand_cons, ofValue] at h
          split at h <;> cases h
      | cons v' stack' =>
          rw [expand_cons, expand_cons, ofValue, ofValue] at h
          split at h <;> split at h <;> simp only [List.cons_append, List.nil_append,
            List.cons.injEq, upper.injEq, narrow.injEq, reduceCtorEq, false_and] at h
          · rw [h.1, ih h.2.2]
          · rw [h.1, ih h.2]

@[simp]
theorem entries_expand (stack : List Value) : entries (expand stack) = stack.length := by
  induction stack with
  | nil => rfl
  | cons v stack ih =>
      have hone : entries (ofValue v) = 1 := by
        rw [ofValue]
        split <;> rfl
      rw [expand_cons, entries, List.countP_append, ← entries, ← entries, hone, ih,
        List.length_cons, Nat.add_comm]

end Slot

/-! ## Shuffles of slots -/

/-- A boundary after `k` slots lies inside a long or double. -/
def Splits (slots : List Slot) (k : Nat) : Prop := ∃ v, slots[k]? = some (.lower v)

inductive Shuffle where
  /-- Copies the top `count` slots beneath the next `skip` slots. -/
  | dup (count skip : Nat)
  | drop (count : Nat)
  deriving DecidableEq, Repr

namespace Shuffle

def reach : Shuffle → Nat
  | dup count skip => count + skip
  | drop count => count

def boundaries : Shuffle → List Nat
  | dup count skip => [count, count + skip]
  | drop count => [count]

def onSlots : Shuffle → List Slot → List Slot
  | dup count skip, slots =>
      slots.take count ++ (slots.drop count).take skip ++ slots.take count ++
        slots.drop (count + skip)
  | drop count, slots => slots.drop count

/-- The shuffle cannot be done on these slots with a limit on the entries. -/
structure Fails (s : Shuffle) (limit : Nat) (slots : List Slot) : Prop where
  reason : (∃ k ∈ s.boundaries, Splits slots k) ∨ slots.length < s.reach ∨
    limit < Slot.entries (s.onSlots slots)

end Shuffle

/-! ## Cutting a stack -/

/-- The stack consists of entries that make up `k` slots and of the entries under them. -/
structure CutAt (stack : List Value) (k : Nat) (above below : List Value) : Prop where
  eq_append : stack = above ++ below
  length_expand : (Slot.expand above).length = k

namespace Slot

variable {v : Value} {stack : List Value} {k : Nat}

theorem splits_expand_cons_iff :
    Splits (expand (v :: stack)) ((ofValue v).length + k) ↔ Splits (expand stack) k := by
  rw [Splits, Splits, expand_cons, List.getElem?_append_right (Nat.le_add_right _ _),
    Nat.add_sub_cancel_left]

theorem not_splits_expand_zero (stack : List Value) : ¬ Splits (expand stack) 0 := by
  rintro ⟨v, h⟩
  cases stack with
  | nil => cases h
  | cons w stack =>
      rw [expand_cons, ofValue] at h
      split at h <;> cases h

end Slot

namespace CutAt

open Slot

variable {stack above below : List Value} {k : Nat}

theorem take_expand (h : CutAt stack k above below) : (expand stack).take k = expand above := by
  rw [h.eq_append, expand_append, ← h.length_expand, List.take_left]

theorem drop_expand (h : CutAt stack k above below) : (expand stack).drop k = expand below := by
  rw [h.eq_append, expand_append, ← h.length_expand, List.drop_left]

theorem take_length (h : CutAt stack k above below) : stack.take above.length = above := by
  rw [h.eq_append, List.take_left]

theorem drop_length (h : CutAt stack k above below) : stack.drop above.length = below := by
  rw [h.eq_append, List.drop_left]

theorem cons (v : Value) (h : CutAt stack k above below) :
    CutAt (v :: stack) ((ofValue v).length + k) (v :: above) below where
  eq_append := congrArg (v :: ·) h.eq_append
  length_expand := by rw [expand_cons, List.length_append, h.length_expand]

theorem length_le (h : CutAt stack k above below) : above.length ≤ stack.length := by
  rw [h.eq_append, List.length_append]
  exact Nat.le_add_right _ _

theorem not_short (h : CutAt stack k above below) : ¬ (expand stack).length < k := by
  rw [h.eq_append, expand_append, List.length_append, h.length_expand]
  exact Nat.not_lt.mpr (Nat.le_add_right _ _)

theorem append {mid rest : List Value} {k' : Nat} (h : CutAt stack k above rest)
    (h' : CutAt rest k' mid below) : CutAt stack (k + k') (above ++ mid) below where
  eq_append := by rw [h.eq_append, h'.eq_append, List.append_assoc]
  length_expand := by
    rw [expand_append, List.length_append, h.length_expand, h'.length_expand]

theorem splits_add_iff (h : CutAt stack k above below) (k' : Nat) :
    Splits (expand stack) (k + k') ↔ Splits (expand below) k' := by
  rw [Splits, Splits, h.eq_append, expand_append, ← h.length_expand,
    List.getElem?_append_right (Nat.le_add_right _ _), Nat.add_sub_cancel_left]

theorem length_eq (h : CutAt stack k above below) :
    (expand stack).length = k + (expand below).length := by
  rw [h.eq_append, expand_append, List.length_append, h.length_expand]

theorem not_splits (h : CutAt stack k above below) : ¬ Splits (expand stack) k := by
  intro hsplits
  rw [Splits, h.eq_append, expand_append, ← h.length_expand,
    List.getElem?_append_right (Nat.le_refl _), Nat.sub_self] at hsplits
  exact not_splits_expand_zero below hsplits

end CutAt

namespace FrameM

open Slot

/-- What counting the entries of `k` slots gives: the entries above a cut, or a defect where there
is no cut. -/
inductive Counted (stack : List Value) (k : Nat) (f : Frame) :
    EStateM.Result (Fault ⊕ Defect) Frame Nat → Prop
  | cut {above below : List Value} (h : CutAt stack k above below) :
      Counted stack k f (.ok above.length f)
  | uncut (h : (expand stack).length < k ∨ Splits (expand stack) k) (d : Defect) :
      Counted stack k f (.error (.inr d) f)

theorem Counted.cons {stack : List Value} {k : Nat} {f : Frame} {x : FrameM Nat} (v : Value)
    (h : Counted stack k f (x f)) :
    Counted (v :: stack) ((ofValue v).length + k) f ((do return (← x) + 1 : FrameM Nat) f) := by
  rw [bind_apply]
  generalize x f = result at h
  cases h with
  | cut h => exact .cut (h.cons v)
  | uncut h d =>
      refine .uncut ?_ d
      rwa [splits_expand_cons_iff, expand_cons, List.length_append, Nat.add_lt_add_iff_left]

theorem entriesFor_counted (stack : List Value) (k : Nat) (f : Frame) :
    Counted stack k f (entriesFor stack k f) := by
  fun_induction entriesFor stack k with
  | case1 stack =>
      have hnone : CutAt stack 0 [] stack := ⟨rfl, rfl⟩
      exact .cut hnone
  | case2 k => exact .uncut (.inl (Nat.succ_pos k)) _
  | case3 v rest hwide =>
      refine .uncut (.inr ⟨v, ?_⟩) _
      rw [expand_cons, ofValue_of_isWide hwide]
      rfl
  | case4 v rest hwide k ih =>
      have hcons := ih.cons v
      rwa [ofValue_of_isWide hwide, Nat.add_comm] at hcons
  | case5 v rest k hnarrow ih =>
      have hcons := ih.cons v
      rwa [ofValue_of_not_isWide hnarrow, Nat.add_comm] at hcons

def shuffle : Shuffle → FrameM Unit
  | .dup count skip => dup count skip
  | .drop count => dropSlots count

end FrameM

/-- One stack comes from the other by the shuffle, and what the shuffle does not reach stays. -/
structure Shuffle.Done (s : Shuffle) (stack stack' : List Value) : Prop where
  expand_eq : Slot.expand stack' = s.onSlots (Slot.expand stack)
  stays : ∃ above above' below, CutAt stack s.reach above below ∧ stack' = above' ++ below

theorem Shuffle.Done.unique {s : Shuffle} {stack before after : List Value}
    (h : s.Done stack before) (h' : s.Done stack after) : after = before :=
  Slot.expand_injective (h'.expand_eq.trans h.expand_eq.symm)

namespace FrameM

open Slot

inductive Shuffled (s : Shuffle) (f : Frame) :
    EStateM.Result (Fault ⊕ Defect) Frame Unit → Prop
  | done {stack : List Value} (h : ¬ s.Fails f.maxStack (expand f.stack))
      (hdone : s.Done f.stack stack) : Shuffled s f (.ok () { f with stack })
  | failed (h : s.Fails f.maxStack (expand f.stack)) (d : Defect) (f' : Frame) :
      Shuffled s f (.error (.inr d) f')

theorem shuffled_dropSlots {count : Nat} {f : Frame} (hlimit : f.stack.length ≤ f.maxStack) :
    Shuffled (.drop count) f (dropSlots count f) := by
  have hcount := entriesFor_counted f.stack count f
  change Shuffled (.drop count) f
    ((entriesFor f.stack count >>= fun n => set { f with stack := f.stack.drop n } : FrameM Unit) f)
  rw [bind_apply]
  generalize entriesFor f.stack count f = result at hcount
  cases hcount with
  | uncut h d =>
      refine .failed ?_ d f
      obtain hshort | hsplits := h
      · exact ⟨.inr (.inl hshort)⟩
      · exact ⟨.inl ⟨count, List.mem_singleton_self _, hsplits⟩⟩
  | @cut above below h =>
      have hexpand : expand below = (expand f.stack).drop count := h.drop_expand.symm
      have hlength : below.length ≤ f.stack.length := by
        rw [h.eq_append, List.length_append]
        exact Nat.le_add_left _ _
      dsimp only
      rw [h.drop_length]
      refine .done ?_ ⟨hexpand, above, [], below, h, rfl⟩
      rintro ⟨⟨k, hk, hsplits⟩ | hshort | hover⟩
      · rw [List.mem_singleton.mp hk] at hsplits
        exact h.not_splits hsplits
      · exact h.not_short hshort
      · rw [Shuffle.onSlots, ← hexpand, entries_expand] at hover
        exact absurd (Nat.le_trans hlength hlimit) (Nat.not_le_of_lt hover)

theorem forM_push_of_room {vs : List Value} {f : Frame}
    (h : f.stack.length + vs.length ≤ f.maxStack) :
    vs.forM push f = .ok () { f with stack := vs.reverse ++ f.stack } := by
  induction vs generalizing f with
  | nil => rfl
  | cons v vs ih =>
      rw [List.length_cons] at h
      have hpush : push v f = .ok () { f with stack := v :: f.stack } := by
        rw [push_apply, if_pos (by omega)]
      have hrest := ih (f := { f with stack := v :: f.stack }) (by
        simp only [Frame.maxStack, List.length_cons] at h ⊢
        omega)
      rw [List.reverse_cons, List.append_assoc]
      exact (bind_of_ok hpush).trans hrest

theorem forM_push_of_full {vs : List Value} {f : Frame} (hlimit : f.stack.length ≤ f.maxStack)
    (h : f.maxStack < f.stack.length + vs.length) :
    ∃ d f', vs.forM push f = .error (.inr d) f' := by
  induction vs generalizing f with
  | nil => exact absurd h (Nat.not_lt_of_le hlimit)
  | cons v vs ih =>
      by_cases hroom : f.stack.length < f.maxStack
      · have hpush : push v f = .ok () { f with stack := v :: f.stack } := by
          rw [push_apply, if_pos hroom]
        obtain ⟨d, f', hrest⟩ := ih (f := { f with stack := v :: f.stack }) hroom (by
          simp only [Frame.maxStack, List.length_cons] at h ⊢
          omega)
        exact ⟨d, f', (bind_of_ok hpush).trans hrest⟩
      · have hpush : push v f = .error (.inr (.stackOverflow f.method.render f.opPc)) f := by
          rw [push_apply, if_neg hroom]
        exact ⟨_, f, bind_of_error hpush⟩

theorem shuffled_copies {count skip : Nat} {f : Frame} {above mid rest below : List Value}
    (hlimit : f.stack.length ≤ f.maxStack) (h : CutAt f.stack count above rest)
    (h' : CutAt rest skip mid below) :
    Shuffled (.dup count skip) f ((do
      (List.replicate above.length Value.top).forM push
      let grown ← get
      overwrite 0 ((grown.stack.drop above.length).take (above.length + mid.length))
      overwrite (above.length + mid.length) (f.stack.take above.length) : FrameM Unit) f) := by
  have hboth := h.append h'
  have hexpand : expand (above ++ mid ++ above ++ below) =
      Shuffle.onSlots (.dup count skip) (expand f.stack) := by
    rw [Shuffle.onSlots, h.take_expand, h.drop_expand, h'.take_expand, hboth.drop_expand]
    simp only [expand_append]
  have hlength : (above ++ mid ++ above ++ below).length = f.stack.length + above.length := by
    rw [hboth.eq_append]
    simp only [List.length_append]
    omega
  have hreach : above.length + mid.length = (above ++ mid).length := List.length_append.symm
  have hgrow : (List.replicate above.length Value.top).length = above.length :=
    List.length_replicate
  rw [bind_apply]
  by_cases hroom : f.stack.length + above.length ≤ f.maxStack
  · rw [forM_push_of_room (hgrow.symm ▸ hroom), List.reverse_replicate]
    dsimp only
    rw [copyBeneath_apply (hreach ▸ hboth.length_le), hreach, hboth.drop_length,
      hboth.take_length, h.take_length]
    refine .done ?_ ⟨hexpand, above ++ mid, above ++ mid ++ above, below, hboth, rfl⟩
    rintro ⟨⟨k, hk, hsplits⟩ | hshort | hover⟩
    · simp only [Shuffle.boundaries, List.mem_cons, List.not_mem_nil, or_false] at hk
      obtain rfl | rfl := hk
      · exact h.not_splits hsplits
      · exact hboth.not_splits hsplits
    · exact hboth.not_short hshort
    · rw [← hexpand, entries_expand, hlength] at hover
      exact absurd hroom (Nat.not_le_of_lt hover)
  · obtain ⟨d, f', hfull⟩ := forM_push_of_full hlimit (hgrow.symm ▸ Nat.lt_of_not_le hroom)
    rw [hfull]
    refine .failed ⟨.inr (.inr ?_)⟩ d f'
    rw [← hexpand, entries_expand, hlength]
    exact Nat.lt_of_not_le hroom

theorem shuffled_dup (count skip : Nat) {f : Frame} (hlimit : f.stack.length ≤ f.maxStack) :
    Shuffled (.dup count skip) f (dup count skip f) := by
  have hcount := entriesFor_counted f.stack count f
  unfold dup
  rw [bind_of_ok (rfl : (get : FrameM Frame) f = .ok f f), bind_apply]
  generalize entriesFor f.stack count f = result at hcount
  cases hcount with
  | uncut h d =>
      refine .failed ?_ d f
      obtain hshort | hsplits := h
      · exact ⟨.inr (.inl (Nat.lt_add_right skip hshort))⟩
      · exact ⟨.inl ⟨count, List.mem_cons_self, hsplits⟩⟩
  | @cut above rest h =>
      have hskip := entriesFor_counted rest skip f
      dsimp only
      rw [h.drop_length, bind_apply]
      generalize entriesFor rest skip f = result at hskip
      cases hskip with
      | uncut h' d =>
          refine .failed ?_ d f
          obtain hshort | hsplits := h'
          · refine ⟨.inr (.inl ?_)⟩
            rw [h.length_eq]
            exact Nat.add_lt_add_left hshort count
          · exact ⟨.inl ⟨count + skip, List.mem_cons_of_mem _ (List.mem_singleton_self _),
              (h.splits_add_iff skip).2 hsplits⟩⟩
      | cut h' => exact shuffled_copies hlimit h h'

theorem shuffled_shuffle (s : Shuffle) {f : Frame} (hlimit : f.stack.length ≤ f.maxStack) :
    Shuffled s f (shuffle s f) := by
  cases s with
  | dup count skip => exact shuffled_dup count skip hlimit
  | drop count => exact shuffled_dropSlots hlimit

end FrameM

/-! ## The instructions -/

/-- The shuffle that an instruction does: `pop2`, `dup`, `dup_x1`, `dup_x2`, `dup2`, `dup2_x1` or
`dup2_x2`. -/
def Shuffle.ofByte? : UInt8 → Option Shuffle
  | 0x58 => some (.drop 2)
  | 0x59 => some (.dup 1 0)
  | 0x5a => some (.dup 1 1)
  | 0x5b => some (.dup 1 2)
  | 0x5c => some (.dup 2 0)
  | 0x5d => some (.dup 2 1)
  | 0x5e => some (.dup 2 2)
  | _ => none

theorem Shuffle.exists_operation {byte : UInt8} {s : Shuffle} (h : ofByte? byte = some s) :
    ∃ op, (⟨byte⟩ : Code.Opcode).operation? = some (.data op) ∧
      FrameM.data op = FrameM.shuffle s := by
  unfold ofByte? at h
  split at h <;> cases h
  · exact ⟨.pop2, by decide +kernel, rfl⟩
  · exact ⟨.dup 1 0, by decide +kernel, rfl⟩
  · exact ⟨.dup 1 1, by decide +kernel, rfl⟩
  · exact ⟨.dup 1 2, by decide +kernel, rfl⟩
  · exact ⟨.dup 2 0, by decide +kernel, rfl⟩
  · exact ⟨.dup 2 1, by decide +kernel, rfl⟩
  · exact ⟨.dup 2 2, by decide +kernel, rfl⟩

section

variable {prepare : ClassId → Exec Unit} {vm : Vm} {f : Frame} {below : List Frame} {byte : UInt8}
  {s : Shuffle}

theorem step_eq_of_shuffle (hframes : vm.frames = f :: below)
    (hbyte : f.body.code[f.pc]? = some byte) (hshuffle : Shuffle.ofByte? byte = some s) :
    Exec.step prepare vm =
      match FrameM.shuffle s { f with opPc := f.pc, pc := f.pc + 1 } with
      | .ok () f' => .ok () { vm with frames := f' :: below }
      | .error (.inl e) f' => .error (.fault e) { vm with frames := f' :: below }
      | .error (.inr d) f' => .error (.defect d) { vm with frames := f' :: below } := by
  obtain ⟨op, hop, hdata⟩ := Shuffle.exists_operation hshuffle
  rw [← hdata]
  exact Exec.step_of_data hframes hbyte hop

/-- A shuffle does to the slots of the stack what it says, and ends in a defect exactly when it
would cut a long or double in two, the stack is too short, or the result is too long.  The stack
itself is never longer than its limit (`Frame.Contained`). -/
theorem shuffles_exact (hframes : vm.frames = f :: below)
    (hbyte : f.body.code[f.pc]? = some byte) (hshuffle : Shuffle.ofByte? byte = some s)
    (hlimit : f.stack.length ≤ f.maxStack) :
    ((∃ d vm', Exec.step prepare vm = .error (.defect d) vm') ↔
      s.Fails f.maxStack (Slot.expand f.stack)) ∧
    (¬ s.Fails f.maxStack (Slot.expand f.stack) → ∃ stack, s.Done f.stack stack ∧
      (∀ stack', s.Done f.stack stack' → stack' = stack) ∧
      Exec.step prepare vm = .ok () { vm with
        frames := { f with stack, opPc := f.pc, pc := f.pc + 1 } :: below }) := by
  have hshuffled : FrameM.Shuffled s _ (FrameM.shuffle s { f with opPc := f.pc, pc := f.pc + 1 }) :=
    FrameM.shuffled_shuffle s hlimit
  rw [step_eq_of_shuffle hframes hbyte hshuffle]
  generalize FrameM.shuffle s _ = result at hshuffled
  cases hshuffled with
  | done hfails hdone =>
      dsimp only
      refine ⟨iff_of_false ?_ hfails, fun _ => ⟨_, hdone, fun _ => hdone.unique, rfl⟩⟩
      rintro ⟨_, _, ⟨⟩⟩
  | failed hfails d f' =>
      dsimp only
      exact ⟨iff_of_true ⟨d, _, rfl⟩ hfails, fun h => absurd hfails h⟩

end

namespace LongOverInt

def body : ClassFile.Body := ⟨3, 0, #[0x5d], [], []⟩

def method : Method :=
  ⟨⟨0, 0⟩, "A", 0x0021, "run", "()V", 0x0008, ⟨[], none, "()V"⟩, some body⟩

def frame : Frame := ⟨method, body, #[], [.long 7, .int 1], 0, 0⟩

def machine : Vm := { Vm.start none 0 none with frames := [frame] }

theorem shuffles_copy_beneath :
    ¬ (Shuffle.dup 2 1).Fails frame.maxStack (Slot.expand frame.stack) ∧
    ∃ stack, (Shuffle.dup 2 1).Done frame.stack stack ∧
      Exec.step (Exec.initialized 0) machine = .ok () { machine with
        frames := [{ frame with stack, opPc := 0, pc := 1 }] } := by
  have hfits : ¬ (Shuffle.dup 2 1).Fails frame.maxStack (Slot.expand frame.stack) := by
    rintro ⟨⟨k, hk, v, hv⟩ | hshort | hover⟩
    · simp only [Shuffle.boundaries, List.mem_cons, List.not_mem_nil, or_false] at hk
      obtain rfl | rfl := hk <;> cases hv
    · exact absurd hshort (by decide)
    · exact absurd hover (by decide)
  obtain ⟨stack, hdone, -, hstep⟩ := (@shuffles_exact (Exec.initialized 0) machine frame [] 0x5d
    (.dup 2 1) rfl rfl rfl (by decide)).2 hfits
  exact ⟨hfits, stack, hdone, hstep⟩

end LongOverInt

end ClassEngine.Machine
