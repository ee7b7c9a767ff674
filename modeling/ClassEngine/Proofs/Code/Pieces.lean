import ClassEngine.Proofs.Code.Emission
import Mathlib.Data.List.Forall2

/-!
# Pieces of assembled code

What the calls of an assembler add is a list of pieces, each of them bytes or room for the
distance to a label.  Assembling puts the distances in their rooms and leaves the bytes alone.
-/

namespace ClassEngine.Code

inductive Piece where
  | bytes (bs : List UInt8)
  | room (origin : Nat) (wide : Bool) (l : LabelId)

namespace Piece

/-- What stands in the code before the distances are filled in. -/
def blank : Piece → List UInt8
  | .bytes bs => bs
  | .room _ wide _ => List.replicate (if wide then 4 else 2) 0

def fixups : Nat → List Piece → List Fixup
  | _, [] => []
  | slot, .bytes bs :: ps => fixups (slot + bs.length) ps
  | slot, .room origin wide l :: ps =>
      ⟨l, slot, origin, wide⟩ :: fixups (slot + if wide then 4 else 2) ps

theorem fixups_append (slot : Nat) (ps qs : List Piece) :
    fixups slot (ps ++ qs) = fixups slot ps ++ fixups (slot + (ps.flatMap blank).length) qs := by
  induction ps generalizing slot with
  | nil => rfl
  | cons p ps ih =>
      cases p with
      | bytes bs => simp [fixups, ih, blank, Nat.add_assoc]
      | room origin wide l => simp [fixups, ih, blank, Nat.add_assoc]

end Piece

namespace Assembler

variable {a a' a'' : Assembler} {ps qs : List Piece}

/-! ## Adding pieces -/

/-- The pieces stand at the end of the code, their rooms wait for their labels. -/
structure Adds (a : Assembler) (ps : List Piece) (a' : Assembler) : Prop where
  bytes : a'.bytes.toList = a.bytes.toList ++ ps.flatMap Piece.blank
  fixups : a'.fixups.toList = a.fixups.toList ++ Piece.fixups a.size ps

theorem Adds.size (h : a.Adds ps a') : a'.size = a.size + (ps.flatMap Piece.blank).length := by
  have := congrArg List.length h.bytes
  simpa [Assembler.size] using this

theorem Adds.le_size (h : a.Adds ps a') : a.size ≤ a'.size := by
  have := h.size
  omega

theorem adds_nil (hbytes : a'.bytes = a.bytes) (hfixups : a'.fixups = a.fixups) :
    a.Adds [] a' :=
  ⟨by simp [hbytes], by simp [hfixups, Piece.fixups]⟩

theorem Adds.refl (a : Assembler) : a.Adds [] a := adds_nil rfl rfl

theorem Adds.trans (h : a.Adds ps a') (h' : a'.Adds qs a'') : a.Adds (ps ++ qs) a'' := by
  constructor
  · rw [h'.bytes, h.bytes, List.flatMap_append, List.append_assoc]
  · rw [h'.fixups, h.fixups, Piece.fixups_append, ← h.size, List.append_assoc]

theorem adds_emitBytes (a : Assembler) (bs : List UInt8) : a.Adds [.bytes bs] (a.emitBytes bs) := by
  constructor
  · simp [emitBytes, Piece.blank]
  · simp [emitBytes, Piece.fixups]

theorem adds_reserve (a : Assembler) (origin : Nat) (wide : Bool) (l : LabelId) :
    a.Adds [.room origin wide l] (a.reserve origin wide l) := by
  constructor
  · simp [reserve, Piece.blank]
  · simp [reserve, Piece.fixups]

theorem adds_emitJump (a : Assembler) (op : Opcode) (l : LabelId) :
    a.Adds [.bytes [op.byte], .room a.size false l] (a.emitJump op l) :=
  (adds_emitBytes a [op.byte]).trans (adds_reserve _ a.size false l)

theorem adds_emitJumpWide (a : Assembler) (op : Opcode) (l : LabelId) :
    a.Adds [.bytes [op.byte], .room a.size true l] (a.emitJumpWide op l) :=
  (adds_emitBytes a [op.byte]).trans (adds_reserve _ a.size true l)

theorem adds_foldl {α : Type} {f : Assembler → α → Assembler} {pieces : α → List Piece}
    (hf : ∀ (a : Assembler) x, a.Adds (pieces x) (f a x)) (xs : List α) (a : Assembler) :
    a.Adds (xs.flatMap pieces) (xs.foldl f a) := by
  induction xs generalizing a with
  | nil => exact .refl a
  | cons x xs ih => exact (hf a x).trans (ih (f a x))

/-! ## Switches -/

/-- The bytes between the opcode of a switch at `pc` and its operands. -/
def padding (pc : Nat) : List UInt8 := List.replicate ((4 - (pc + 1) % 4) % 4) 0

/-- The start of a switch: the opcode, the padding and the default target. -/
def switchHead (pc : Nat) (op : Opcode) (default : LabelId) : List Piece :=
  [.bytes [op.byte], .bytes (padding pc), .room pc true default]

def word (v : Int32) : Piece := .bytes (BigEndian.bytes32 v.toUInt32)

theorem adds_switchHead (a : Assembler) (op : Opcode) (default : LabelId) :
    a.Adds (switchHead a.size op default) ((a.emit [op]).pad.reserve a.size true default) := by
  have hop := adds_emitBytes a [op.byte]
  have hpad : (a.emitBytes [op.byte]).Adds [.bytes (padding a.size)] (a.emit [op]).pad := by
    have hsize : (a.emitBytes [op.byte]).size = a.size + 1 := hop.size
    rw [padding, ← hsize]
    exact adds_emitBytes _ _
  exact (hop.trans hpad).trans (adds_reserve _ a.size true default)

def tableSwitchPieces (pc : Nat) (default : LabelId) (low : Int32) (targets : List LabelId) :
    List Piece :=
  switchHead pc .tableswitch default ++
    [word low, word (low + Int32.ofInt targets.length - 1)] ++
    targets.flatMap fun l => [.room pc true l]

theorem adds_emitTableSwitch (a : Assembler) (default : LabelId) (low : Int32)
    (targets : List LabelId) :
    a.Adds (tableSwitchPieces a.size default low targets)
      (a.emitTableSwitch default low targets) := by
  have hhead := (adds_switchHead a .tableswitch default).trans
    ((adds_emitBytes _ (BigEndian.bytes32 low.toUInt32)).trans (adds_emitBytes _
      (BigEndian.bytes32 (low + Int32.ofInt targets.length - 1).toUInt32)))
  exact hhead.trans (adds_foldl (fun a' l => adds_reserve a' a.size true l) targets _)

def sortedCases (keys : List Int32) (targets : List LabelId) : List (Int32 × LabelId) :=
  (keys.zip targets).mergeSort fun p q => p.1 ≤ q.1

def lookupSwitchPieces (pc : Nat) (default : LabelId) (keys : List Int32)
    (targets : List LabelId) : List Piece :=
  switchHead pc .lookupswitch default ++ [word (Int32.ofInt keys.length)] ++
    (sortedCases keys targets).flatMap fun (key, l) => [word key, .room pc true l]

theorem adds_emitLookupSwitch (a : Assembler) (default : LabelId) {keys : List Int32}
    {targets : List LabelId} (h : keys.length = targets.length) :
    ∃ a', a.emitLookupSwitch default keys targets = .ok a' ∧
      a.Adds (lookupSwitchPieces a.size default keys targets) a' := by
  have hhead := (adds_switchHead a .lookupswitch default).trans
    (adds_emitBytes _ (BigEndian.bytes32 (Int32.ofInt keys.length).toUInt32))
  have hpair (a' : Assembler) (c : Int32 × LabelId) :
      a'.Adds [word c.1, .room a.size true c.2] ((a'.emitWord c.1).reserve a.size true c.2) :=
    (adds_emitBytes a' (BigEndian.bytes32 c.1.toUInt32)).trans (adds_reserve _ a.size true c.2)
  rw [emitLookupSwitch, if_pos h]
  exact ⟨_, rfl, hhead.trans (adds_foldl hpair (sortedCases keys targets) _)⟩

/-! ## Filling in the distances -/

def Reaches (a : Assembler) (origin : Nat) (l : LabelId) (distance : Int) : Prop :=
  ∃ position, a.position? l = some position ∧ distance = (position : Int) - origin

/-- The bytes that stand for a piece in the finished code.  Only a short distance is checked
to fit. -/
inductive Fills (a : Assembler) : Piece → List UInt8 → Prop where
  | bytes (bs : List UInt8) : Fills a (.bytes bs) bs
  | short {origin : Nat} {l : LabelId} {offset : Int16} (h : a.Reaches origin l offset.toInt) :
      Fills a (.room origin false l) (BigEndian.bytes16 offset.toUInt16)
  | wide {origin : Nat} {l : LabelId} {distance : Int} (h : a.Reaches origin l distance) :
      Fills a (.room origin true l) (BigEndian.bytes32 (Int32.ofInt distance).toUInt32)

theorem Fills.length {p : Piece} {bs : List UInt8} (h : a.Fills p bs) :
    bs.length = p.blank.length := by
  cases h with
  | bytes => rfl
  | short => rfl
  | wide => rfl

theorem length_flatten_of_fills {chunks : List (List UInt8)}
    (h : List.Forall₂ a.Fills ps chunks) :
    chunks.flatten.length = (ps.flatMap Piece.blank).length := by
  induction h with
  | nil => rfl
  | cons h _ ih => simp [h.length, ih]

theorem write_append (front old rest bs : List UInt8) (h : old.length = bs.length) :
    write (front ++ (old ++ rest)).toArray front.length bs = (front ++ (bs ++ rest)).toArray := by
  rw [write]
  induction bs generalizing front old with
  | nil => simp [List.length_eq_zero_iff.mp h]
  | cons b bs ih =>
      cases old with
      | nil => simp at h
      | cons o old =>
          have hset : (front ++ (o :: old ++ rest)).toArray.set! front.length b =
              ((front ++ [b]) ++ (old ++ rest)).toArray := by
            simp
          have hslot : front.length + 1 = (front ++ [b]).length := by simp
          rw [List.foldl_cons]
          dsimp only
          rw [hset, hslot, ih (front ++ [b]) old (by simpa using h)]
          simp

theorem fill_room {bytes filled : Array UInt8} {origin slot : Nat} {wide : Bool} {l : LabelId}
    (h : a.fill bytes ⟨l, slot, origin, wide⟩ = .ok filled) :
    ∃ bs, a.Fills (.room origin wide l) bs ∧ filled = write bytes slot bs := by
  unfold fill at h
  split at h
  · contradiction
  · rename_i position hposition
    have hposition : a.position? l = some position := hposition
    dsimp only at h
    split at h
    · rename_i hwide
      cases hwide
      cases h
      exact ⟨_, .wide ⟨position, hposition, rfl⟩, rfl⟩
    · rename_i hwide
      split at h
      · rename_i hrange
        simp only [Bool.and_eq_true, decide_eq_true_eq] at hrange
        cases wide with
        | true => contradiction
        | false =>
            cases h
            refine ⟨_, .short ⟨position, hposition, ?_⟩, rfl⟩
            apply Int16.toInt_ofInt_of_le
            · omega
            · omega
      · contradiction

theorem foldlM_fill {front : List UInt8} {code : Array UInt8}
    (h : (Piece.fixups front.length ps).foldlM a.fill (front ++ ps.flatMap Piece.blank).toArray =
      .ok code) :
    ∃ chunks, List.Forall₂ a.Fills ps chunks ∧ code.toList = front ++ chunks.flatten := by
  induction ps generalizing front with
  | nil =>
      cases h
      exact ⟨[], .nil, by simp⟩
  | cons p ps ih =>
      cases p with
      | bytes bs =>
          rw [Piece.fixups, List.flatMap_cons, ← List.append_assoc, ← List.length_append] at h
          obtain ⟨chunks, hchunks, hcode⟩ := ih h
          exact ⟨bs :: chunks, .cons (.bytes bs) hchunks, by simp [hcode, Piece.blank]⟩
      | room origin wide l =>
          rw [Piece.fixups, List.foldlM_cons, List.flatMap_cons] at h
          cases hfill : a.fill (front ++ ((Piece.room origin wide l).blank ++
              ps.flatMap Piece.blank)).toArray ⟨l, front.length, origin, wide⟩ with
          | error e =>
              rw [hfill] at h
              contradiction
          | ok filled =>
              obtain ⟨bs, hbs, rfl⟩ := fill_room hfill
              have hlength : front.length + (if wide then 4 else 2) = (front ++ bs).length := by
                simp [hbs.length, Piece.blank]
              rw [hfill, write_append _ _ _ _ hbs.length.symm, hlength, ← List.append_assoc] at h
              obtain ⟨chunks, hchunks, hcode⟩ := ih h
              exact ⟨bs :: chunks, .cons hbs hchunks, by simp [hcode]⟩

theorem assemble_pieces {code : Array UInt8} (hadds : Adds {} ps a) (h : a.assemble = .ok code) :
    ∃ chunks, List.Forall₂ a.Fills ps chunks ∧ code.toList = chunks.flatten := by
  have hbytes : a.bytes = ([] ++ ps.flatMap Piece.blank).toArray := by
    rw [← Array.toList_inj]
    exact hadds.bytes
  have hfixups : a.fixups.toList = Piece.fixups ([] : List UInt8).length ps := hadds.fixups
  rw [assemble, ← Array.foldlM_toList, hfixups, hbytes] at h
  exact foldlM_fill h

/-! ## Every call adds pieces -/

theorem adds_emitLocal (op : Opcode) (index : UInt16) :
    ∃ ps, ∀ a : Assembler, a.Adds ps (a.emitLocal op index) := by
  unfold emitLocal
  split
  · exact ⟨_, fun a => adds_emitBytes a _⟩
  · split
    · exact ⟨_, fun a => adds_emitBytes a _⟩
    · split
      · exact ⟨_, fun a => adds_emitBytes a _⟩
      · exact ⟨_, fun a => adds_emitBytes a _⟩

theorem adds_emitIncrement (index : UInt16) (delta : Int16) :
    ∃ ps, ∀ a : Assembler, a.Adds ps (a.emitIncrement index delta) := by
  unfold emitIncrement
  split
  · exact ⟨_, fun a => adds_emitBytes a _⟩
  · exact ⟨_, fun a => adds_emitBytes a _⟩

theorem adds_emitInt (value : Int32) :
    ∃ ps, ∀ a : Assembler, a.Adds ps ((a.emitInt value).toOption.getD a) := by
  unfold emitInt
  split
  · exact ⟨_, fun a => adds_emitBytes a _⟩
  · split
    · exact ⟨_, fun a => adds_emitBytes a _⟩
    · split
      · exact ⟨_, fun a => adds_emitBytes a _⟩
      · exact ⟨_, fun a => .refl a⟩

theorem adds_mark (a : Assembler) (l : LabelId) : a.Adds [] ((a.mark l).toOption.getD a) := by
  rw [mark]
  split
  · exact .refl a
  · exact adds_nil rfl rfl

/-- The pieces depend on nothing but the call and the size of the code. -/
theorem adds_perform (size : Nat) (e : Emission) :
    ∃ ps, ∀ a : Assembler, a.size = size → a.Adds ps (a.perform e) := by
  cases e with
  | plain | byte | int8 | uint16 | int16 | invokeInterface | multiNewArray =>
      exact ⟨_, fun a _ => adds_emitBytes a _⟩
  | increment index delta =>
      obtain ⟨ps, hps⟩ := adds_emitIncrement index delta
      exact ⟨ps, fun a _ => hps a⟩
  | localAccess op index =>
      obtain ⟨ps, hps⟩ := adds_emitLocal op index
      exact ⟨ps, fun a _ => hps a⟩
  | int value =>
      obtain ⟨ps, hps⟩ := adds_emitInt value
      exact ⟨ps, fun a _ => hps a⟩
  | newLabel | here => exact ⟨[], fun a _ => adds_nil rfl rfl⟩
  | mark l => exact ⟨[], fun a _ => adds_mark a l⟩
  | jump op l =>
      exact ⟨[.bytes [op.byte], .room size false l], fun a h => h ▸ adds_emitJump a op l⟩
  | jumpWide op l =>
      exact ⟨[.bytes [op.byte], .room size true l], fun a h => h ▸ adds_emitJumpWide a op l⟩
  | tableSwitch default low targets =>
      exact ⟨tableSwitchPieces size default low targets,
        fun a h => h ▸ adds_emitTableSwitch a default low targets⟩
  | lookupSwitch default keys targets =>
      by_cases h : keys.length = targets.length
      · refine ⟨lookupSwitchPieces size default keys targets, fun a hsize => ?_⟩
        obtain ⟨a', hemit, hadds⟩ := adds_emitLookupSwitch a default h
        rw [perform, hemit, ← hsize]
        exact hadds
      · refine ⟨[], fun a _ => ?_⟩
        rw [perform, emitLookupSwitch, if_neg h]
        exact .refl a

theorem adds_calls (a : Assembler) (calls : List Emission) :
    ∃ ps, a.Adds ps (calls.foldl perform a) := by
  induction calls generalizing a with
  | nil => exact ⟨_, .refl a⟩
  | cons e calls ih =>
      obtain ⟨ps, hps⟩ := adds_perform a.size e
      obtain ⟨qs, hqs⟩ := ih (a.perform e)
      exact ⟨_, (hps a rfl).trans hqs⟩

end Assembler

end ClassEngine.Code
