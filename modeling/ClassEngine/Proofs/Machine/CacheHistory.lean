import ClassEngine.Proofs.Machine.Caches
import Mathlib.Data.Finset.Card
import Mathlib.Data.Finset.Dedup
import Mathlib.Tactic.Ring

/-!
# The history of a call-site cache

What a cache answers depends only on the targets that were recorded in it: the first one for each
class counts, as long as there are no more classes than the cache can hold.  Its state tells how
many there are, and its counters tell how many lookups there were and how many of them found a
target.
-/

namespace ClassEngine.Machine.InlineCache

variable {κ τ : Type}

inductive Use (κ τ : Type) where
  | lookup (receiver : κ)
  | record (receiver : κ) (target? : Option τ)
  deriving DecidableEq

def Use.isLookup : Use κ τ → Bool
  | .lookup _ => true
  | .record _ _ => false

/-- A search without a target leaves nothing to record. -/
def Use.recorded? : Use κ τ → Option (κ × τ)
  | .lookup _ => none
  | .record receiver target? => target?.map (receiver, ·)

def recorded (history : List (Use κ τ)) : List (κ × τ) := history.filterMap Use.recorded?

variable [DecidableEq κ]

def classes (history : List (Use κ τ)) : Finset κ := ((recorded history).map (·.1)).toFinset

def firstTarget? (history : List (Use κ τ)) (receiver : κ) : Option τ :=
  ((recorded history).find? (·.1 = receiver)).map (·.2)

/-- What a lookup answers after a history. -/
def answer? (history : List (Use κ τ)) (receiver : κ) : Option τ :=
  if (classes history).card ≤ capacity then firstTarget? history receiver else none

/-- The name of the state of a cache in which this number of classes was recorded. -/
def stateFor : Nat → String
  | 0 => "empty"
  | 1 => "monomorphic"
  | n => if n ≤ capacity then "polymorphic" else "megamorphic"

def use (c : InlineCache κ τ) : Use κ τ → InlineCache κ τ
  | .lookup receiver => (c.lookup receiver).2
  | .record receiver target? => c.record receiver target?

def after (history : List (Use κ τ)) : InlineCache κ τ := history.foldl use {}

def returned (c : InlineCache κ τ) : List (Use κ τ) → List (Option τ)
  | [] => []
  | .lookup receiver :: later =>
    (c.lookup receiver).1 :: (c.use (.lookup receiver)).returned later
  | .record receiver target? :: later => (c.use (.record receiver target?)).returned later

section

variable {c c' : InlineCache κ τ} {history later : List (Use κ τ)} {u : Use κ τ} {receiver r : κ}
  {target : τ}

/-! ## What was recorded -/

omit [DecidableEq κ] in
theorem recorded_append (history later : List (Use κ τ)) :
    recorded (history ++ later) = recorded history ++ recorded later :=
  List.filterMap_append

omit [DecidableEq κ] in
theorem recorded_append_of_none (h : u.recorded? = none) :
    recorded (history ++ [u]) = recorded history := by
  have hnothing : recorded [u] = [] := List.filterMap_cons_none h
  rw [recorded_append, hnothing, List.append_nil]

theorem card_classes_append (history later : List (Use κ τ)) :
    (classes history).card ≤ (classes (history ++ later)).card := by
  refine Finset.card_le_card fun receiver h => ?_
  simp only [classes, recorded_append, List.map_append, List.toFinset_append]
  exact Finset.mem_union_left _ h

theorem classes_append_record (history : List (Use κ τ)) (receiver : κ) (target : τ) :
    classes (history ++ [.record receiver (some target)]) = insert receiver (classes history) := by
  ext r
  simp [classes, recorded, Use.recorded?]

theorem firstTarget?_append_record (history : List (Use κ τ)) (receiver r : κ) (target : τ) :
    firstTarget? (history ++ [.record receiver (some target)]) r =
      (firstTarget? history r).or (if receiver = r then some target else none) := by
  simp only [firstTarget?, recorded_append, List.find?_append, Option.map_or]
  congr 1
  by_cases h : receiver = r <;> simp [recorded, Use.recorded?, h]

theorem isSome_firstTarget?_iff :
    (firstTarget? history receiver).isSome ↔ receiver ∈ classes history := by
  simp [firstTarget?, classes]

/-! ## Operations -/

theorem lookup_overflowed (c : InlineCache κ τ) (receiver : κ) :
    (c.lookup receiver).2.overflowed = c.overflowed := by
  unfold lookup
  split <;> rfl

theorem lookup_hits (c : InlineCache κ τ) (receiver : κ) :
    (c.lookup receiver).2.hits = c.hits + .ofNat ([(c.lookup receiver).1].countP (·.isSome)) := by
  unfold lookup
  split
  · rfl
  · exact (UInt64.add_zero c.hits).symm

theorem lookup_misses (c : InlineCache κ τ) (receiver : κ) :
    (c.lookup receiver).2.misses =
      c.misses + .ofNat ([(c.lookup receiver).1].countP (·.isNone)) := by
  unfold lookup
  split
  · exact (UInt64.add_zero c.misses).symm
  · rfl

theorem record_counters (c : InlineCache κ τ) (receiver : κ) (target? : Option τ) :
    (c.record receiver target?).hits = c.hits ∧ (c.record receiver target?).misses = c.misses := by
  cases target? with
  | none => exact ⟨rfl, rfl⟩
  | some target =>
      simp only [record, update]
      split
      · exact ⟨rfl, rfl⟩
      · split <;> exact ⟨rfl, rfl⟩

theorem entry?_append (c : InlineCache κ τ) (receiver r : κ) (target : τ) :
    InlineCache.entry? { c with entries := c.entries ++ [(receiver, target)] } r =
      (c.entry? r).or (if receiver = r then some target else none) := by
  simp only [InlineCache.entry?, List.find?_append, Option.map_or]
  congr 1
  by_cases h : receiver = r <;> simp [h]

/-! ## A cache and its history -/

theorem stateFor_of_two_le {n : Nat} (h : 2 ≤ n) :
    stateFor n = if n ≤ capacity then "polymorphic" else "megamorphic" := by
  obtain ⟨n, rfl⟩ := Nat.exists_eq_add_of_le' h
  rfl

structure Follows (c : InlineCache κ τ) (history : List (Use κ τ)) : Prop where
  kept : (classes history).card ≤ capacity →
    c.overflowed = false ∧ c.entries.length = (classes history).card ∧
      ∀ r, c.entry? r = firstTarget? history r
  emptied : capacity < (classes history).card → c.overflowed = true ∧ c.entries = []

theorem follows_nil : Follows ({} : InlineCache κ τ) [] where
  kept _ := ⟨rfl, rfl, fun _ => rfl⟩
  emptied h := absurd h (Nat.not_lt_zero _)

namespace Follows

theorem idle (h : c.Follows history) (hu : u.recorded? = none)
    (hentries : c'.entries = c.entries) (hoverflowed : c'.overflowed = c.overflowed) :
    c'.Follows (history ++ [u]) := by
  have hrecorded : recorded (history ++ [u]) = recorded history := recorded_append_of_none hu
  constructor
  · simpa only [classes, firstTarget?, entry?, hrecorded, hentries, hoverflowed] using h.kept
  · simpa only [classes, hrecorded, hentries, hoverflowed] using h.emptied

theorem record_known (h : c.Follows history) (hcard : (classes history).card ≤ capacity)
    (hknown : receiver ∈ classes history) :
    (c.update receiver target).Follows (history ++ [.record receiver (some target)]) := by
  obtain ⟨hoverflowed, hlength, hentry⟩ := h.kept hcard
  have hsome : (firstTarget? history receiver).isSome := isSome_firstTarget?_iff.mpr hknown
  have hclasses : classes (history ++ [.record receiver (some target)]) = classes history := by
    rw [classes_append_record, Finset.insert_eq_of_mem hknown]
  have hupdate : c.update receiver target = c := by
    rw [update, hentry, hsome, Bool.or_true, if_pos rfl]
  constructor
  · intro _
    rw [hupdate, hclasses]
    refine ⟨hoverflowed, hlength, fun r => ?_⟩
    rw [hentry, firstTarget?_append_record]
    split
    · rename_i heq
      rw [← heq, Option.or_of_isSome hsome]
    · rw [Option.or_none]
  · rw [hclasses]
    exact fun hmany => absurd hcard (Nat.not_le_of_lt hmany)

/-- One class more takes another entry, or empties the cache if there is none left. -/
theorem record_new (h : c.Follows history) (hcard : (classes history).card ≤ capacity)
    (hnew : receiver ∉ classes history) :
    (c.update receiver target).Follows (history ++ [.record receiver (some target)]) := by
  obtain ⟨hoverflowed, hlength, hentry⟩ := h.kept hcard
  have hnone : c.entry? receiver = none := by
    rw [hentry, ← Option.not_isSome_iff_eq_none, isSome_firstTarget?_iff]
    exact hnew
  have hclasses : (classes (history ++ [.record receiver (some target)])).card =
      (classes history).card + 1 := by
    rw [classes_append_record, Finset.card_insert_of_notMem hnew]
  rw [update, if_neg (by simp [hoverflowed, hnone]), hlength]
  split
  · rename_i hfull
    exact ⟨fun hfew => absurd hfew (by omega), fun _ => ⟨rfl, rfl⟩⟩
  · rename_i hroom
    constructor
    · intro _
      refine ⟨hoverflowed, by rw [List.length_append, hlength, hclasses, List.length_singleton],
        fun r => ?_⟩
      rw [entry?_append, hentry, firstTarget?_append_record]
    · exact fun hmany => absurd hmany (by omega)

/-- A cache that is emptied stays so. -/
theorem record_emptied (h : c.Follows history) (hcard : capacity < (classes history).card) :
    (c.update receiver target).Follows (history ++ [.record receiver (some target)]) := by
  obtain ⟨hoverflowed, hentries⟩ := h.emptied hcard
  have hmore := card_classes_append history [.record receiver (some target)]
  rw [update, hoverflowed, Bool.true_or, if_pos rfl]
  exact ⟨fun hfew => absurd hfew (by omega), fun _ => ⟨hoverflowed, hentries⟩⟩

theorem use (h : c.Follows history) (u : Use κ τ) : (c.use u).Follows (history ++ [u]) := by
  cases u with
  | lookup receiver => exact h.idle rfl (entries_of_lookup rfl) (c.lookup_overflowed receiver)
  | record receiver target? =>
      cases target? with
      | none => exact h.idle rfl rfl rfl
      | some target =>
          rcases Nat.lt_or_ge capacity (classes history).card with hmany | hfew
          · exact h.record_emptied hmany
          · by_cases hknown : receiver ∈ classes history
            · exact h.record_known hfew hknown
            · exact h.record_new hfew hknown

theorem entry_eq (h : c.Follows history) (receiver : κ) :
    c.entry? receiver = answer? history receiver := by
  unfold answer?
  split
  · rename_i hfew
    exact (h.kept hfew).2.2 receiver
  · rename_i hmany
    rw [InlineCache.entry?, (h.emptied (Nat.lt_of_not_ge hmany)).2]
    rfl

theorem stateName (h : c.Follows history) :
    c.stateName = stateFor (classes history).card := by
  rcases Nat.lt_or_ge capacity (classes history).card with hmany | hfew
  · have htwo : 2 ≤ (classes history).card := Nat.lt_of_le_of_lt (by decide : 1 ≤ capacity) hmany
    rw [InlineCache.stateName, (h.emptied hmany).1, if_pos rfl, stateFor_of_two_le htwo,
      if_neg (by omega)]
  · obtain ⟨hoverflowed, hlength, -⟩ := h.kept hfew
    rw [InlineCache.stateName, hoverflowed, ← hlength, if_neg Bool.false_ne_true]
    match hentries : c.entries with
    | [] => rfl
    | [_] => rfl
    | _ :: _ :: rest =>
        rw [stateFor_of_two_le (by simp), if_pos (by rw [← hentries, hlength]; exact hfew)]

end Follows

theorem follows_after (history : List (Use κ τ)) : (after history).Follows history := by
  induction history using List.reverseRecOn with
  | nil => exact follows_nil
  | append_singleton history u ih =>
      rw [after, List.foldl_append]
      exact ih.use u

/-! ## Counters -/

theorem length_returned (history : List (Use κ τ)) (c : InlineCache κ τ) :
    (c.returned history).length = history.countP (·.isLookup) := by
  induction history generalizing c with
  | nil => rfl
  | cons u later ih =>
      cases u with
      | lookup receiver =>
          rw [returned, List.length_cons, ih, List.countP_cons_of_pos rfl]
      | record receiver target? =>
          rw [returned, ih, List.countP_cons_of_neg Bool.false_ne_true]

theorem counters_foldl (history : List (Use κ τ)) (c : InlineCache κ τ) :
    (history.foldl use c).hits = c.hits + .ofNat ((c.returned history).countP (·.isSome)) ∧
      (history.foldl use c).misses =
        c.misses + .ofNat ((c.returned history).countP (·.isNone)) := by
  induction history generalizing c with
  | nil => exact ⟨(UInt64.add_zero _).symm, (UInt64.add_zero _).symm⟩
  | cons u later ih =>
      obtain ⟨hhits, hmisses⟩ := ih (c.use u)
      rw [List.foldl_cons, hhits, hmisses]
      cases u with
      | lookup receiver =>
          rw [returned, ← List.singleton_append, List.countP_append, List.countP_append]
          simp only [use, lookup_hits, lookup_misses, UInt64.ofNat_add, UInt64.add_assoc, and_self]
      | record receiver target? =>
          obtain ⟨hhits, hmisses⟩ := c.record_counters receiver target?
          simp only [use, returned, hhits, hmisses, and_self]

theorem countP_isSome_add_isNone (rs : List (Option τ)) :
    rs.countP (·.isSome) + rs.countP (·.isNone) = rs.length := by
  have hnone : (fun r : Option τ => decide ¬(r.isSome = true)) = (·.isNone) := by
    funext r
    cases r <;> rfl
  rw [List.length_eq_countP_add_countP (·.isSome), hnone]

/-- A cache answers with the first target that was recorded for a class while the classes fit in it,
and with none from the first class on that does not; its state is the number of the classes and its
counters are the numbers of lookups, modulo the range of a word. -/
theorem cache_follows_history (history : List (Use κ τ)) :
    (∀ receiver, ((after history).lookup receiver).1 = answer? history receiver) ∧
    (capacity < (classes history).card → ∀ later receiver,
      ((after (history ++ later)).lookup receiver).1 = none) ∧
    (after history).stateName = stateFor (classes history).card ∧
    (after history).hits = .ofNat ((returned {} history).countP (·.isSome)) ∧
    (after history).hits + (after history).misses = .ofNat (history.countP (·.isLookup)) ∧
    (history.countP (·.isLookup) < 2 ^ 64 →
      (after history).hits.toNat + (after history).misses.toNat =
        history.countP (·.isLookup)) := by
  have hanswer (history : List (Use κ τ)) (receiver : κ) :
      ((after history).lookup receiver).1 = answer? history receiver :=
    (entry?_of_lookup rfl).symm.trans ((follows_after history).entry_eq receiver)
  obtain ⟨hhits, hmisses⟩ := counters_foldl history {}
  rw [UInt64.zero_add] at hhits hmisses
  have hlookups := countP_isSome_add_isNone (returned {} history)
  rw [length_returned] at hlookups
  refine ⟨hanswer history, fun hmany later receiver => ?_, (follows_after history).stateName, hhits,
    ?_, fun hfew => ?_⟩
  · have hmore := card_classes_append history later
    rw [hanswer, answer?, if_neg (by omega)]
  · rw [after, hhits, hmisses, ← UInt64.ofNat_add, hlookups]
  · rw [after, hhits, hmisses, UInt64.toNat_ofNat', UInt64.toNat_ofNat',
      Nat.mod_eq_of_lt (by omega), Nat.mod_eq_of_lt (by omega), hlookups]

def crowd : List (Use Nat String) :=
  [0, 1, 2, 3, 4, 5, 6].map fun receiver => .record receiver (some "target")

theorem cache_follows_history_crowd :
    capacity < (classes crowd).card ∧
      ((after (crowd ++ [.record 0 (some "again")])).lookup 0).1 = none :=
  have hmany : capacity < (classes crowd).card := by decide
  ⟨hmany, (cache_follows_history crowd).2.1 hmany [.record 0 (some "again")] 0⟩

end

end ClassEngine.Machine.InlineCache
