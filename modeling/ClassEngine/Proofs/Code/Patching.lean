import ClassEngine.Proofs.Code.Pieces

/-!
# Finishing code more than once

Finishing fills in the offsets in place, and stops at the first one that cannot be filled in.  It
changes nothing but rooms that wait for an offset, and whatever stands in these the next call
overwrites.  So what a call leaves behind never shows in a later outcome.
-/

namespace ClassEngine.Code

/-! ## Rooms -/

namespace Fixup

def width (f : Fixup) : Nat := if f.wide then 4 else 2

def Covers (f : Fixup) (i : Nat) : Prop := f.slot ≤ i ∧ i < f.slot + f.width

end Fixup

/-- Codes of one length that differ in the rooms at most. -/
structure AgreeOutside (rooms : List Fixup) (xs ys : Array UInt8) : Prop where
  size : ys.size = xs.size
  bytes : ∀ i, (∀ f ∈ rooms, ¬ f.Covers i) → ys[i]? = xs[i]?

namespace AgreeOutside

variable {rooms more : List Fixup} {xs ys zs : Array UInt8}

theorem refl (rooms : List Fixup) (xs : Array UInt8) : AgreeOutside rooms xs xs :=
  ⟨rfl, fun _ _ => rfl⟩

theorem trans (h : AgreeOutside rooms xs ys) (h' : AgreeOutside rooms ys zs) :
    AgreeOutside rooms xs zs :=
  ⟨h'.size.trans h.size, fun i hi => (h'.bytes i hi).trans (h.bytes i hi)⟩

theorem symm (h : AgreeOutside rooms xs ys) : AgreeOutside rooms ys xs :=
  ⟨h.size.symm, fun i hi => (h.bytes i hi).symm⟩

theorem mono (h : AgreeOutside rooms xs ys) (hsub : ∀ f ∈ rooms, f ∈ more) :
    AgreeOutside more xs ys :=
  ⟨h.size, fun i hi => h.bytes i fun f hf => hi f (hsub f hf)⟩

theorem eq (h : AgreeOutside [] xs ys) : ys = xs :=
  Array.ext_getElem? fun i => h.bytes i nofun

theorem append (h : AgreeOutside rooms xs ys) (bs : List UInt8) :
    AgreeOutside rooms (xs ++ bs) (ys ++ bs) := by
  constructor
  · have hsize (zs : Array UInt8) : (zs ++ bs).size = zs.size + bs.length := by
      rw [← Array.length_toList, Array.toList_appendList, List.length_append, Array.length_toList]
    rw [hsize, hsize, h.size]
  · intro i hi
    have hlist (zs : Array UInt8) : (zs ++ bs)[i]? = (zs.toList ++ bs)[i]? := by
      rw [← Array.getElem?_toList, Array.toList_appendList]
    rw [hlist, hlist]
    by_cases hlt : i < xs.size
    · rw [List.getElem?_append_left (by simpa [h.size]), List.getElem?_append_left (by simpa)]
      simpa using h.bytes i hi
    · rw [List.getElem?_append_right (by simpa [h.size] using hlt),
        List.getElem?_append_right (by simpa using hlt)]
      simp [h.size]

end AgreeOutside

namespace Assembler

theorem getElem?_set! (bytes : Array UInt8) (slot : Nat) (b : UInt8) (i : Nat) :
    (bytes.set! slot b)[i]? = if slot = i ∧ i < bytes.size then some b else bytes[i]? := by
  rw [Array.set!_eq_setIfInBounds, Array.getElem?_setIfInBounds]
  by_cases heq : slot = i
  · subst heq
    by_cases hlt : slot < bytes.size
    · simp [hlt]
    · simp [hlt]
  · rw [if_neg heq, if_neg fun h => heq h.1]

theorem getElem?_write (bytes : Array UInt8) (slot : Nat) (bs : List UInt8) (i : Nat) :
    (write bytes slot bs)[i]? =
      if slot ≤ i ∧ i < slot + bs.length ∧ i < bytes.size then bs[i - slot]? else bytes[i]? := by
  unfold write
  induction bs generalizing bytes slot with
  | nil =>
      rw [if_neg (by simp; omega)]
      rfl
  | cons b bs ih =>
      rw [List.foldl_cons, ih, Array.size_set!, getElem?_set!, List.length_cons]
      by_cases hslot : slot = i
      · subst hslot
        rw [if_neg (by omega), Nat.sub_self]
        by_cases hlt : slot < bytes.size
        · rw [if_pos ⟨rfl, hlt⟩, if_pos (by omega)]
          rfl
        · rw [if_neg fun h => hlt h.2, if_neg (by omega)]
      · by_cases hin : slot ≤ i ∧ i < slot + (bs.length + 1) ∧ i < bytes.size
        · have hnext : i - slot = i - (slot + 1) + 1 := by omega
          rw [if_pos (by omega), if_pos hin, hnext, List.getElem?_cons_succ]
        · rw [if_neg (by omega), if_neg fun h => hslot h.1, if_neg hin]

/-- The reference cannot be filled in, and why. -/
inductive Refuses (a : Assembler) (f : Fixup) : AssembleError → Prop
  | unresolved (h : a.position? f.label = none) : Refuses a f (.unresolved (a.labelName f.label))
  | outOfRange {position : Nat} (h : a.position? f.label = some position) (narrow : f.wide = false)
      (range : ¬ (-32768 ≤ (position : Int) - f.origin ∧ (position : Int) - f.origin ≤ 32767)) :
      Refuses a f (.outOfRange (a.labelName f.label) f.origin)

variable {a b : Assembler} {f : Fixup} {rooms : List Fixup} {xs ys : Array UInt8}

theorem Refuses.unique {e e' : AssembleError} (h : a.Refuses f e) (h' : a.Refuses f e') :
    e = e' := by
  cases h with
  | unresolved h =>
      cases h' with
      | unresolved => rfl
      | outOfRange h' => cases h.symm.trans h'
  | outOfRange h =>
      cases h' with
      | unresolved h' => cases h.symm.trans h'
      | outOfRange => rfl

/-- What filling in does depends on the labels only: it fails, or puts some bytes in the room. -/
theorem fill_cases (a : Assembler) (f : Fixup) :
    (∃ e, a.Refuses f e ∧ ∀ bytes, a.fill bytes f = .error e) ∨
      ∃ bs, bs.length = f.width ∧ (∀ e, ¬ a.Refuses f e) ∧
        ∀ bytes, a.fill bytes f = .ok (write bytes f.slot bs) := by
  unfold fill
  cases hposition : a.position? f.label with
  | none => exact .inl ⟨_, .unresolved hposition, fun _ => rfl⟩
  | some position =>
      dsimp only
      cases hwide : f.wide with
      | true =>
          refine .inr ⟨_, ?_, fun e he => ?_, fun _ => rfl⟩
          · simp [Fixup.width, hwide, BigEndian.bytes32]
          · cases he with
            | unresolved h => exact nomatch hposition.symm.trans h
            | outOfRange h hnarrow => exact nomatch hwide.symm.trans hnarrow
      | false =>
          by_cases hrange : -32768 ≤ (position : Int) - f.origin ∧
              (position : Int) - f.origin ≤ 32767
          · have hcheck : (decide (-32768 ≤ (position : Int) - f.origin) &&
                decide ((position : Int) - f.origin ≤ 32767)) = true := by simpa using hrange
            refine .inr ⟨_, ?_, fun e he => ?_, fun _ => if_pos hcheck⟩
            · simp [Fixup.width, hwide, BigEndian.bytes16]
            · cases he with
              | unresolved h => exact nomatch hposition.symm.trans h
              | outOfRange h _ hout =>
                  cases hposition.symm.trans h
                  exact hout hrange
          · have hcheck : ¬ (decide (-32768 ≤ (position : Int) - f.origin) &&
                decide ((position : Int) - f.origin ≤ 32767)) = true := by simpa using hrange
            exact .inl ⟨_, .outOfRange hposition hwide hrange, fun _ => if_neg hcheck⟩

/-! ## Filling in place -/

theorem agreeOutside_write_write {bs : List UInt8} (hlength : bs.length = f.width)
    (h : AgreeOutside (f :: rooms) xs ys) :
    AgreeOutside rooms (write xs f.slot bs) (write ys f.slot bs) := by
  constructor
  · rw [size_write, size_write, h.size]
  · intro i hi
    rw [getElem?_write, getElem?_write, hlength, h.size]
    split
    · rfl
    · rename_i hout
      by_cases hlt : i < xs.size
      · apply h.bytes i
        intro g hg
        obtain rfl | hg := List.mem_cons.mp hg
        · exact fun hcovers => hout ⟨hcovers.1, hcovers.2, hlt⟩
        · exact hi g hg
      · have := h.size
        rw [Array.getElem?_eq_none (by omega), Array.getElem?_eq_none (by omega)]

theorem agreeOutside_write {bs : List UInt8} (hlength : bs.length = f.width) (xs : Array UInt8) :
    AgreeOutside [f] xs (write xs f.slot bs) := by
  refine ⟨size_write .., fun i hi => ?_⟩
  rw [getElem?_write, hlength]
  exact if_neg fun h => hi f List.mem_cons_self ⟨h.1, h.2.1⟩

/-- What stood in the rooms before does not show in what is filled in. -/
theorem patch_agree (h : AgreeOutside rooms xs ys) :
    (a.patch rooms ys).1 = (a.patch rooms xs).1 ∧
      ((a.patch rooms xs).1 = none → (a.patch rooms ys).2 = (a.patch rooms xs).2) := by
  induction rooms generalizing xs ys with
  | nil => exact ⟨rfl, fun _ => h.eq⟩
  | cons f rooms ih =>
      unfold patch
      obtain ⟨e, -, hfill⟩ | ⟨bs, hlength, -, hfill⟩ := a.fill_cases f
      · simp [hfill]
      · simp only [hfill]
        exact ih (agreeOutside_write_write hlength h)

theorem agreeOutside_patch (a : Assembler) (rooms : List Fixup) (xs : Array UInt8) :
    AgreeOutside rooms xs (a.patch rooms xs).2 := by
  induction rooms generalizing xs with
  | nil => exact .refl [] xs
  | cons f rooms ih =>
      unfold patch
      obtain ⟨e, -, hfill⟩ | ⟨bs, hlength, -, hfill⟩ := a.fill_cases f
      · simp only [hfill]
        exact .refl _ xs
      · simp only [hfill]
        have hfirst : AgreeOutside (f :: rooms) xs (write xs f.slot bs) :=
          (agreeOutside_write hlength xs).mono (by simp)
        exact hfirst.trans ((ih _).mono fun g => List.mem_cons_of_mem f)

/-- Patching reports the first reference that cannot be filled in. -/
theorem patch_eq_error {e : AssembleError} (xs : Array UInt8) :
    (a.patch rooms xs).1 = some e ↔
      ∃ before f rest, rooms = before ++ f :: rest ∧ (∀ g ∈ before, ∀ e', ¬ a.Refuses g e') ∧
        a.Refuses f e := by
  induction rooms generalizing xs with
  | nil => simp [patch]
  | cons f rooms ih =>
      unfold patch
      obtain ⟨e', hrefuses, hfill⟩ | ⟨bs, -, haccepts, hfill⟩ := a.fill_cases f
      · simp only [hfill]
        constructor
        · rintro ⟨⟩
          exact ⟨[], f, rooms, rfl, nofun, hrefuses⟩
        · rintro ⟨before, g, rest, hrooms, haccepts, hg⟩
          cases before with
          | nil =>
              cases hrooms
              rw [hrefuses.unique hg]
          | cons f' before =>
              cases hrooms
              exact absurd hrefuses (haccepts f List.mem_cons_self e')
      · simp only [hfill]
        rw [ih]
        constructor
        · rintro ⟨before, g, rest, rfl, hbefore, hg⟩
          exact ⟨f :: before, g, rest, rfl, List.forall_mem_cons.mpr ⟨haccepts, hbefore⟩, hg⟩
        · rintro ⟨before, g, rest, hrooms, hbefore, hg⟩
          cases before with
          | nil =>
              cases hrooms
              exact absurd hg (haccepts e)
          | cons f' before =>
              cases hrooms
              exact ⟨before, g, rest, rfl, (List.forall_mem_cons.mp hbefore).2, hg⟩

/-! ## Assemblers that differ in their rooms -/

theorem Adds.bytes_eq {ps : List Piece} (h : a.Adds ps b) :
    b.bytes = a.bytes ++ ps.flatMap Piece.blank := by
  rw [← Array.toList_inj, h.bytes, Array.toList_appendList]

structure Alike (a b : Assembler) : Prop where
  labels : b.labels = a.labels
  fixups : b.fixups = a.fixups
  bytes : AgreeOutside a.fixups.toList a.bytes b.bytes

namespace Alike

theorem refl (a : Assembler) : a.Alike a := ⟨rfl, rfl, .refl ..⟩

theorem fill (h : a.Alike b) : b.fill = a.fill := by
  funext bytes f
  simp only [Assembler.fill, position?, labelName, h.labels]

theorem patch (h : a.Alike b) : b.patch = a.patch := by
  funext rooms xs
  induction rooms generalizing xs with
  | nil => rfl
  | cons f rooms ih =>
      simp only [Assembler.patch, h.fill, ih]

theorem finish (h : a.Alike b) : b.finish.1 = a.finish.1 := by
  obtain ⟨herror, hbytes⟩ := patch_agree (a := a) h.bytes
  simp only [Assembler.finish, h.patch, h.fixups]
  rw [herror]
  cases hnone : (a.patch a.fixups.toList a.bytes).1 with
  | none => simp [hbytes hnone]
  | some e => rfl

theorem finished (h : a.Alike b) : a.Alike b.finish.2 := by
  refine ⟨h.labels, h.fixups, h.bytes.trans ?_⟩
  rw [← h.fixups]
  exact agreeOutside_patch ..

theorem finished_finished (h : a.Alike b) : a.finish.2.Alike b.finish.2 := by
  refine ⟨h.labels, h.fixups, ?_⟩
  exact (agreeOutside_patch a a.fixups.toList a.bytes).symm.trans h.finished.bytes

theorem size (h : a.Alike b) : b.size = a.size := h.bytes.size

theorem position (h : a.Alike b) (l : LabelId) : b.position? l = a.position? l := by
  simp only [position?, h.labels]

theorem labels_of_appends {a' b' : Assembler} (h : a.Alike b) (ha : a.Appends a')
    (hb : b.Appends b') : b'.labels = a'.labels :=
  hb.labels.trans (h.labels.trans ha.labels.symm)

theorem labels_perform (h : a.Alike b) (e : Emission) :
    (b.perform e).labels = (a.perform e).labels := by
  cases e with
  | plain | byte | int8 | uint16 | int16 | invokeInterface | multiNewArray | jump | jumpWide =>
      exact h.labels
  | increment index delta =>
      exact h.labels_of_appends (appends_emitIncrement ..) (appends_emitIncrement ..)
  | localAccess op index => exact h.labels_of_appends (appends_emitLocal ..) (appends_emitLocal ..)
  | int value => exact h.labels_of_appends (appends_emitInt ..) (appends_emitInt ..)
  | tableSwitch default low targets =>
      exact h.labels_of_appends (appends_emitTableSwitch ..) (appends_emitTableSwitch ..)
  | lookupSwitch default keys targets =>
      exact h.labels_of_appends (appends_emitLookupSwitch ..) (appends_emitLookupSwitch ..)
  | newLabel name => simp only [Assembler.perform, newLabel, h.labels]
  | here name => simp only [Assembler.perform, here, h.labels, h.size]
  | mark l =>
      simp only [Assembler.perform, mark, h.position l, h.labels, h.size]
      split
      · exact h.labels
      · rfl

theorem perform (h : a.Alike b) (e : Emission) : (a.perform e).Alike (b.perform e) := by
  obtain ⟨ps, hps⟩ := adds_perform a.size e
  have ha := hps a rfl
  have hb := hps b h.size
  refine ⟨h.labels_perform e, ?_, ?_⟩
  · rw [← Array.toList_inj, hb.fixups, ha.fixups, h.fixups, h.size]
  · rw [ha.bytes_eq, hb.bytes_eq, ha.fixups]
    exact (h.bytes.append _).mono fun f => List.mem_append_left _

end Alike

/-! ## Where the rooms are -/

/-- The rooms lie in the code, each behind the one before it. -/
structure RoomsApart (a : Assembler) : Prop where
  apart : a.fixups.toList.Pairwise fun f g => f.slot + f.width ≤ g.slot
  within : ∀ f ∈ a.fixups.toList, f.slot + f.width ≤ a.size

theorem fixups_apart (slot : Nat) (ps : List Piece) :
    (Piece.fixups slot ps).Pairwise (fun f g => f.slot + f.width ≤ g.slot) ∧
      ∀ f ∈ Piece.fixups slot ps,
        slot ≤ f.slot ∧ f.slot + f.width ≤ slot + (ps.flatMap Piece.blank).length := by
  induction ps generalizing slot with
  | nil => exact ⟨.nil, nofun⟩
  | cons p ps ih =>
      cases p with
      | bytes bs =>
          obtain ⟨hapart, hwithin⟩ := ih (slot + bs.length)
          refine ⟨hapart, fun f hf => ?_⟩
          obtain ⟨hle, hend⟩ := hwithin f hf
          simp only [List.flatMap_cons, Piece.blank, List.length_append]
          omega
      | room origin wide l =>
          obtain ⟨hapart, hwithin⟩ := ih (slot + if wide then 4 else 2)
          have hwidth : Fixup.width ⟨l, slot, origin, wide⟩ = if wide then 4 else 2 := rfl
          constructor
          · exact .cons (fun f hf => (hwithin f hf).1) hapart
          · simp only [List.flatMap_cons, Piece.blank, List.length_append, List.length_replicate]
            intro f hf
            obtain rfl | hf := List.mem_cons.mp hf
            · rw [hwidth]
              dsimp only
              omega
            · obtain ⟨hle, hend⟩ := hwithin f hf
              omega

theorem RoomsApart.adds {ps : List Piece} (h : a.RoomsApart) (hadds : a.Adds ps b) :
    b.RoomsApart := by
  obtain ⟨hapart, hwithin⟩ := fixups_apart a.size ps
  constructor
  · rw [hadds.fixups, List.pairwise_append]
    refine ⟨h.apart, hapart, fun f hf g hg => ?_⟩
    exact Nat.le_trans (h.within f hf) (hwithin g hg).1
  · rw [hadds.fixups, hadds.size]
    intro f hf
    obtain hf | hf := List.mem_append.mp hf
    · exact Nat.le_trans (h.within f hf) (Nat.le_add_right _ _)
    · exact (hwithin f hf).2

theorem Alike.roomsApart (h : a.Alike b) (ha : a.RoomsApart) : b.RoomsApart := by
  obtain ⟨hapart, hwithin⟩ := ha
  rw [← h.fixups] at hapart hwithin
  rw [← h.size] at hwithin
  exact ⟨hapart, hwithin⟩

end Assembler

/-! ## Requests -/

inductive Request where
  | emit (e : Emission)
  | finish
  | size
  | position (l : LabelId)
  deriving DecidableEq, Repr

inductive Answer where
  | done
  | finished (outcome : Except AssembleError (Array UInt8))
  | size (n : Nat)
  | position (position? : Option Nat)

namespace Assembler

variable {a b : Assembler}

def serve (a : Assembler) : Request → Answer × Assembler
  | .emit e => (.done, a.perform e)
  | .finish => (.finished a.finish.1, a.finish.2)
  | .size => (.size a.size, a)
  | .position l => (.position (a.position? l), a)

def after (a : Assembler) (requests : List Request) : Assembler :=
  requests.foldl (fun a r => (a.serve r).2) a

def answers (a : Assembler) : List Request → List Answer
  | [] => []
  | r :: rs => (a.serve r).1 :: answers (a.serve r).2 rs

/-- The answers when the code is also finished in between, wherever no request stands. -/
def answersAmid (a : Assembler) : List (Option Request) → List Answer
  | [] => []
  | none :: rs => answersAmid a.finish.2 rs
  | some r :: rs => (a.serve r).1 :: answersAmid (a.serve r).2 rs

theorem Alike.serve (h : a.Alike b) (r : Request) :
    (b.serve r).1 = (a.serve r).1 ∧ (a.serve r).2.Alike (b.serve r).2 := by
  cases r with
  | emit e => exact ⟨rfl, h.perform e⟩
  | finish => exact ⟨congrArg Answer.finished h.finish, h.finished_finished⟩
  | size => exact ⟨congrArg Answer.size h.size, h⟩
  | position l => exact ⟨congrArg Answer.position (h.position l), h⟩

theorem answersAmid_eq (h : a.Alike b) (rs : List (Option Request)) :
    b.answersAmid rs = a.answers (rs.filterMap id) := by
  induction rs generalizing a b with
  | nil => rfl
  | cons r rs ih =>
      cases r with
      | none => exact ih h.finished
      | some r =>
          obtain ⟨hanswer, halike⟩ := h.serve r
          simp [answersAmid, answers, hanswer, ih halike]

theorem RoomsApart.after (h : a.RoomsApart) (rs : List Request) : (a.after rs).RoomsApart := by
  induction rs generalizing a with
  | nil => exact h
  | cons r rs ih =>
      apply ih
      cases r with
      | emit e =>
          obtain ⟨ps, hps⟩ := adds_perform a.size e
          exact h.adds (hps a rfl)
      | finish => exact (Alike.refl a).finished.roomsApart h
      | size | position => exact h

theorem fst_finish (a : Assembler) : a.finish.1 = a.assemble := by
  rw [finish, assemble, ← Array.foldlM_toList]
  dsimp only
  generalize a.bytes = bytes
  induction a.fixups.toList generalizing bytes with
  | nil => rfl
  | cons f rooms ih =>
      rw [patch, List.foldlM_cons]
      cases a.fill bytes f with
      | ok filled => exact ih filled
      | error e => rfl

theorem finish_eq_error {e : AssembleError} :
    a.finish.1 = .error e ↔ ∃ before f rest, a.fixups.toList = before ++ f :: rest ∧
      (∀ g ∈ before, ∀ e', ¬ a.Refuses g e') ∧ a.Refuses f e := by
  rw [← patch_eq_error a.bytes, finish]
  dsimp only
  cases (a.patch a.fixups.toList a.bytes).1 <;> simp

theorem exists_finish_eq_error :
    (∃ e, a.finish.1 = .error e) ↔ ∃ f ∈ a.fixups.toList, ∃ e, a.Refuses f e := by
  constructor
  · rintro ⟨e, he⟩
    obtain ⟨before, f, rest, hfixups, -, hf⟩ := finish_eq_error.mp he
    exact ⟨f, by simp [hfixups], e, hf⟩
  · intro h
    classical
    obtain ⟨f, hfind⟩ : ∃ f, a.fixups.toList.find? (∃ e, a.Refuses · e) = some f := by
      rw [← Option.isSome_iff_exists, List.find?_isSome]
      simpa using h
    obtain ⟨hf, before, rest, hfixups, hbefore⟩ := List.find?_eq_some_iff_append.mp hfind
    obtain ⟨e, he⟩ := of_decide_eq_true hf
    refine ⟨e, finish_eq_error.mpr ⟨before, f, rest, hfixups, fun g hg e' he' => ?_, he⟩⟩
    have haccepts : ∀ e, ¬ a.Refuses g e := by simpa using hbefore g hg
    exact haccepts e' he'

/-- Extra calls that finish the code change no answer.  A call gives the assembled code, fails
exactly when the label of a reference is not marked or a short offset does not fit, and reports the
first such reference.  The references are in the order of their rooms, which do not overlap. -/
theorem finishing_only_observes :
    (∀ requests, answersAmid {} requests = answers {} (requests.filterMap id)) ∧
    (∀ requests, (after {} requests).RoomsApart) ∧
    ∀ a : Assembler, a.finish.1 = a.assemble ∧
      ((∃ e, a.finish.1 = .error e) ↔ ∃ f ∈ a.fixups.toList, ∃ e, a.Refuses f e) ∧
      ∀ e, a.finish.1 = .error e ↔ ∃ before f rest, a.fixups.toList = before ++ f :: rest ∧
        (∀ g ∈ before, ∀ e', ¬ a.Refuses g e') ∧ a.Refuses f e :=
  ⟨answersAmid_eq (.refl {}), RoomsApart.after ⟨.nil, by simp⟩,
    fun a => ⟨fst_finish a, exists_finish_eq_error, fun _ => finish_eq_error⟩⟩

end Assembler

end ClassEngine.Code
