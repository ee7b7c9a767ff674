import Mathlib.Data.List.DropRight
import Mathlib.Data.List.Infix
import ClassEngine.Machine.Class
import ClassEngine.Machine.Profiler

/-!
# The counters of a profiler

A profiler is told what happens, one mark after the other.  Its counters are then those of the
marks since they were last cleared, modulo 2^64, and its events tell of exactly those entries at
which a method becomes hot.
-/

namespace ClassEngine.Machine

/-- What a profiler is told. -/
inductive Mark where
  /-- A frame of the method is pushed. -/
  | entered (m : Method)
  /-- An instruction is started with a frame of the method on top. -/
  | started (m : Method)
  /-- The host clears the counters. -/
  | reset
  deriving DecidableEq, Repr

namespace Mark

def enters (key : MethodId) : Mark → Bool
  | .entered m => m.id = key
  | .started _ | .reset => false

def starts (key : MethodId) : Mark → Bool
  | .started m => m.id = key
  | .entered _ | .reset => false

/-- The method with the key, if the mark is about it. -/
def about? (key : MethodId) : Mark → Option Method
  | .entered m | .started m => if m.id = key then some m else none
  | .reset => none

variable (key : MethodId) (m : Method)

@[simp] theorem enters_entered : (entered m).enters key = decide (m.id = key) := rfl

@[simp] theorem enters_started : (started m).enters key = false := rfl

@[simp] theorem starts_entered : (entered m).starts key = false := rfl

@[simp] theorem starts_started : (started m).starts key = decide (m.id = key) := rfl

end Mark

def sinceReset (marks : List Mark) : List Mark := marks.rtakeWhile (· ≠ .reset)

/-- The number of entries from which on a method is hot. -/
def hotFrom (threshold : UInt64) : Nat := max 1 threshold.toNat

def counted (threshold : UInt64) (key : MethodId) (marks : List Mark) (m : Method) :
    MethodProfile MethodId where
  key
  method := m.render
  invocations := .ofNat (marks.countP (·.enters key))
  instructions := .ofNat (marks.countP (·.starts key))
  isHot := hotFrom threshold ≤ marks.countP (·.enters key)

/-- The counters of the method with a key, if a mark is about it. -/
def counted? (threshold : UInt64) (key : MethodId) (marks : List Mark) :
    Option (MethodProfile MethodId) :=
  (marks.findSome? (·.about? key)).map (counted threshold key marks)

/-- The method that becomes hot with the last of the marks, if one does. -/
def heats? (threshold : UInt64) (marks : List Mark) : Option Method :=
  match marks.getLast? with
  | some (.entered m) =>
    if (sinceReset marks).countP (·.enters m.id) = hotFrom threshold then some m else none
  | _ => none

/-- The methods that become hot, in order; after a reset a method can do so again. -/
def heated (threshold : UInt64) (marks : List Mark) : List Method :=
  marks.inits.filterMap (heats? threshold)

theorem hotFrom_pos (threshold : UInt64) : 0 < hotFrom threshold := by
  unfold hotFrom
  omega

/-- Until a method is hot its counter of entries has not wrapped around. -/
theorem le_ofNat_succ_iff {threshold : UInt64} {n : Nat} (h : n < hotFrom threshold) :
    threshold ≤ UInt64.ofNat (n + 1) ↔ n + 1 = hotFrom threshold := by
  have hlt := threshold.toNat_lt
  unfold hotFrom at h ⊢
  have hsmall : n + 1 < 2 ^ 64 := by omega
  rw [UInt64.le_iff_toNat_le, UInt64.toNat_ofNat', Nat.mod_eq_of_lt hsmall]
  omega

theorem sinceReset_concat (marks : List Mark) {mark : Mark} (h : mark ≠ .reset) :
    sinceReset (marks ++ [mark]) = sinceReset marks ++ [mark] := by
  rw [sinceReset, List.rtakeWhile_concat, if_pos (by simpa using h)]
  rfl

theorem sinceReset_reset (marks : List Mark) : sinceReset (marks ++ [.reset]) = [] := by
  rw [sinceReset, List.rtakeWhile_concat, if_neg (by simp)]

theorem heated_concat (threshold : UInt64) (marks : List Mark) (mark : Mark) :
    heated threshold (marks ++ [mark]) =
      heated threshold marks ++ (heats? threshold (marks ++ [mark])).toList := by
  rw [heated, List.inits_append, List.filterMap_append]
  cases hheats : heats? threshold (marks ++ [mark]) <;> simp [heated, hheats]

theorem heats?_entered (threshold : UInt64) (marks : List Mark) (m : Method) :
    heats? threshold (marks ++ [.entered m]) =
      if (sinceReset marks).countP (·.enters m.id) + 1 = hotFrom threshold then some m
      else none := by
  unfold heats?
  rw [List.getLast?_concat, sinceReset_concat _ (by simp)]
  simp [List.countP_append]

theorem heats?_eq_none (threshold : UInt64) (marks : List Mark) {mark : Mark}
    (h : ∀ m, mark ≠ .entered m) : heats? threshold (marks ++ [mark]) = none := by
  cases mark with
  | entered m => exact absurd rfl (h m)
  | started | reset => simp [heats?]

theorem sinceReset_period {before period : List Mark} (hbefore : sinceReset before = [])
    (hperiod : .reset ∉ period) : sinceReset (before ++ period) = period := by
  induction period using List.reverseRecOn with
  | nil => rw [List.append_nil, hbefore]
  | append_singleton period mark ih =>
      simp only [List.mem_append, List.mem_singleton, not_or] at hperiod
      rw [← List.append_assoc, sinceReset_concat _ (Ne.symm hperiod.2), ih hperiod.1]

/-- While nothing is cleared a method becomes hot at most once, and exactly once if it is
entered often enough. -/
theorem heated_period (threshold : UInt64) {before period : List Mark}
    (hbefore : sinceReset before = []) (hperiod : .reset ∉ period) :
    ∃ fired, heated threshold (before ++ period) = heated threshold before ++ fired ∧
      ∀ key, fired.countP (·.id = key) =
        if hotFrom threshold ≤ period.countP (·.enters key) then 1 else 0 := by
  induction period using List.reverseRecOn with
  | nil => exact ⟨[], by simp, fun key => by simp [(hotFrom_pos threshold).ne']⟩
  | append_singleton period mark ih =>
      simp only [List.mem_append, List.mem_singleton, not_or] at hperiod
      obtain ⟨fired, hheated, hfired⟩ := ih hperiod.1
      refine ⟨fired ++ (heats? threshold (before ++ period ++ [mark])).toList, ?_, fun key => ?_⟩
      · rw [← List.append_assoc, heated_concat, hheated, List.append_assoc]
      · rw [List.countP_append, hfired, List.countP_append, List.countP_singleton]
        cases mark with
        | reset => exact absurd rfl hperiod.2
        | started m =>
            rw [heats?_eq_none _ _ (by simp)]
            simp
        | entered m =>
            rw [heats?_entered, sinceReset_period hbefore hperiod.1, Mark.enters_entered]
            by_cases hkey : m.id = key
            · subst hkey
              split <;> split <;> simp <;> omega
            · have hother (c : Prop) [Decidable c] :
                  (if c then some m else none).toList.countP (·.id = key) = 0 := by
                split <;> simp [hkey]
              rw [hother]
              simp [hkey]

namespace Profiler

def record (p : Profiler MethodId) : Mark → Profiler MethodId
  | .entered m => p.recordInvocation m.id m.render
  | .started m => p.recordInstruction m.id m.render
  | .reset => p.reset

/-- The profiler once it was told the marks, the first one first. -/
def recordAll (p : Profiler MethodId) (marks : List Mark) : Profiler MethodId :=
  marks.foldl record p

theorem recordAll_append (p : Profiler MethodId) (marks later : List Mark) :
    p.recordAll (marks ++ later) = (p.recordAll marks).recordAll later :=
  List.foldl_append

theorem recordAll_concat (p : Profiler MethodId) (marks : List Mark) (mark : Mark) :
    p.recordAll (marks ++ [mark]) = (p.recordAll marks).record mark :=
  p.recordAll_append marks [mark]

section

variable {κ : Type} [DecidableEq κ] {f : MethodProfile κ → MethodProfile κ}

theorem find?_go (key key' : κ) (method : String) (hf : ∀ row, (f row).key = row.key)
    (rows : List (MethodProfile κ)) :
    (modify.go key method f rows).find? (·.key = key') =
      if key' = key then some (f ((rows.find? (·.key = key)).getD { key, method }))
      else rows.find? (·.key = key') := by
  induction rows with
  | nil =>
      by_cases hkey : key' = key
      · simp [modify.go, hf, hkey]
      · simp [modify.go, hf, hkey, Ne.symm hkey]
  | cons row rest ih =>
      by_cases hrow : row.key = key
      · by_cases hkey : key' = key
        · simp [modify.go, hf, hrow, hkey]
        · simp [modify.go, hf, hrow, hkey, Ne.symm hkey]
      · rw [modify.go, if_neg hrow, List.find?_cons, ih, List.find?_cons, List.find?_cons]
        by_cases hkey : key' = key
        · simp [hrow, hkey]
        · simp [hkey]

variable {p : Profiler κ} {key key' : κ} {method : String}

theorem profile?_modify (hf : ∀ row, (f row).key = row.key) :
    (p.modify key method f).profile? key' =
      if key' = key then some (f ((p.profile? key).getD { key, method })) else p.profile? key' :=
  find?_go key key' method hf p.profiles

/-- The counters of a method after one more entry, which is hot from then on if that is often
enough. -/
def afterEntry (threshold : UInt64) (row : MethodProfile κ) : MethodProfile κ :=
  { row with
    invocations := row.invocations + 1
    isHot := row.isHot || threshold ≤ row.invocations + 1 }

variable {row : MethodProfile κ}

theorem recordInvocation_eq (hrow : (p.profile? key).getD { key, method } = row) :
    p.recordInvocation key method =
      let p' := p.modify key method fun row => { row with invocations := row.invocations + 1 }
      if !row.isHot && p.threshold ≤ row.invocations + 1 then
        { p'.modify key method fun row => { row with isHot := true } with
          events := p.events ++ [⟨method, row.invocations + 1⟩] }
      else p' := by
  have hself : (p.modify key method fun row =>
      { row with invocations := row.invocations + 1 }).profile? key =
        some { row with invocations := row.invocations + 1 } := by
    rw [profile?_modify, if_pos rfl, hrow]
    exact fun _ => rfl
  unfold recordInvocation
  simp only [hself]
  rfl

theorem threshold_recordInvocation :
    (p.recordInvocation key method).threshold = p.threshold := by
  rw [recordInvocation_eq rfl]
  dsimp only
  split <;> rfl

theorem profile?_recordInvocation (hrow : (p.profile? key).getD { key, method } = row) :
    (p.recordInvocation key method).profile? key' =
      if key' = key then some (afterEntry p.threshold row) else p.profile? key' := by
  have hcount (key' : κ) : (p.modify key method fun row =>
      { row with invocations := row.invocations + 1 }).profile? key' =
        if key' = key then some { row with invocations := row.invocations + 1 }
        else p.profile? key' := by
    rw [profile?_modify, hrow]
    exact fun _ => rfl
  rw [recordInvocation_eq hrow]
  dsimp only
  split
  · rename_i hheats
    have hheat (p' : Profiler κ) : (p'.modify key method fun row =>
        { row with isHot := true }).profile? key' =
          if key' = key then some { (p'.profile? key).getD { key, method } with isHot := true }
          else p'.profile? key' :=
      profile?_modify fun _ => rfl
    refine (hheat _).trans ?_
    rw [hcount key, hcount key', if_pos rfl]
    simp_all [afterEntry]
  · rename_i hheats
    rw [hcount]
    have hhot : (row.isHot || decide (p.threshold ≤ row.invocations + 1)) = row.isHot := by
      cases hrow : row.isHot <;> simp_all
    rw [afterEntry, hhot]

theorem events_recordInvocation (hrow : (p.profile? key).getD { key, method } = row) :
    (p.recordInvocation key method).events = p.events ++
      if !row.isHot && p.threshold ≤ row.invocations + 1 then [⟨method, row.invocations + 1⟩]
      else [] := by
  rw [recordInvocation_eq hrow]
  dsimp only
  split
  · rfl
  · exact (List.append_nil _).symm

theorem profile?_recordInstruction (hrow : (p.profile? key).getD { key, method } = row) :
    (p.recordInstruction key method).profile? key' =
      if key' = key then some { row with instructions := row.instructions + 1 }
      else p.profile? key' := by
  rw [recordInstruction, profile?_modify, hrow]
  exact fun _ => rfl

end

/-! ## What is counted -/

variable {threshold : UInt64} {key : MethodId} {marks : List Mark}

theorem enters_of_about? {mark : Mark} (h : mark.about? key = none) :
    mark.enters key = false ∧ mark.starts key = false := by
  cases mark with
  | entered m | started m =>
      have hm : m.id ≠ key := by simpa [Mark.about?] using h
      simp [hm]
  | reset => exact ⟨rfl, rfl⟩

theorem getD_counted? (threshold : UInt64) (key : MethodId) (marks : List Mark) (m : Method) :
    (counted? threshold key marks).getD { key, method := m.render } =
      counted threshold key marks ((marks.findSome? (·.about? key)).getD m) := by
  unfold counted?
  cases hfirst : marks.findSome? (·.about? key) with
  | some first => rfl
  | none =>
      have hnone := List.findSome?_eq_none_iff.mp hfirst
      have henters : marks.countP (·.enters key) = 0 := by
        rw [List.countP_eq_zero]
        intro mark hmark
        simp [(enters_of_about? (hnone mark hmark)).1]
      have hstarts : marks.countP (·.starts key) = 0 := by
        rw [List.countP_eq_zero]
        intro mark hmark
        simp [(enters_of_about? (hnone mark hmark)).2]
      simp [counted, henters, hstarts, (hotFrom_pos threshold).ne']

theorem counted?_other {mark : Mark} (h : mark.about? key = none) :
    counted? threshold key (marks ++ [mark]) = counted? threshold key marks := by
  obtain ⟨henters, hstarts⟩ := enters_of_about? h
  have hcounted : counted threshold key (marks ++ [mark]) = counted threshold key marks := by
    funext m
    simp [counted, List.countP_append, henters, hstarts]
  unfold counted?
  rw [hcounted, List.findSome?_append, List.findSome?_singleton, h, Option.or_none]

theorem counted?_about {mark : Mark} {m : Method} (h : mark.about? key = some m) :
    counted? threshold key (marks ++ [mark]) =
      some (counted threshold key (marks ++ [mark])
        ((marks.findSome? (·.about? key)).getD m)) := by
  unfold counted?
  rw [List.findSome?_append, List.findSome?_singleton, h]
  cases marks.findSome? (·.about? key) <;> rfl

theorem counted_entered (threshold : UInt64) (marks : List Mark) (m first : Method) :
    counted threshold m.id (marks ++ [.entered m]) first =
      afterEntry threshold (counted threshold m.id marks first) := by
  have hentries : (marks ++ [Mark.entered m]).countP (·.enters m.id) =
      marks.countP (·.enters m.id) + 1 := by
    simp [List.countP_append]
  have hstarts : (marks ++ [Mark.entered m]).countP (·.starts m.id) =
      marks.countP (·.starts m.id) := by
    simp [List.countP_append]
  have hhot (n : Nat) : decide (hotFrom threshold ≤ n + 1) =
      (decide (hotFrom threshold ≤ n) || decide (threshold ≤ UInt64.ofNat (n + 1))) := by
    rw [Bool.eq_iff_iff]
    simp only [decide_eq_true_eq, Bool.or_eq_true]
    by_cases h : hotFrom threshold ≤ n
    · simp [h, Nat.le_succ_of_le h]
    · rw [le_ofNat_succ_iff (by omega)]
      omega
  unfold counted
  rw [hentries, hstarts, hhot, UInt64.ofNat_add]
  rfl

/-- The entry that makes a method hot is the one at which its entries reach the threshold. -/
theorem fires_iff (threshold : UInt64) (key : MethodId) (marks : List Mark) (first : Method) :
    (!(counted threshold key marks first).isHot &&
      decide (threshold ≤ (counted threshold key marks first).invocations + 1)) = true ↔
        marks.countP (·.enters key) + 1 = hotFrom threshold := by
  generalize hn : marks.countP (·.enters key) = n
  have hhot : (counted threshold key marks first).isHot = decide (hotFrom threshold ≤ n) :=
    hn ▸ rfl
  have hentries : (counted threshold key marks first).invocations + 1 = UInt64.ofNat (n + 1) := by
    rw [UInt64.ofNat_add, ← hn]
    rfl
  rw [hhot, hentries]
  simp only [Bool.and_eq_true, Bool.not_eq_true', decide_eq_false_iff_not, decide_eq_true_eq]
  by_cases h : hotFrom threshold ≤ n
  · simp only [h, not_true_eq_false, false_and, false_iff]
    omega
  · rw [le_ofNat_succ_iff (by omega)]
    simp [h]

theorem counted?_entered (threshold : UInt64) (key : MethodId) (marks : List Mark) (m : Method) :
    counted? threshold key (marks ++ [.entered m]) =
      if key = m.id then
        some (afterEntry threshold
          ((counted? threshold m.id marks).getD { key := m.id, method := m.render }))
      else counted? threshold key marks := by
  by_cases hkey : key = m.id
  · subst hkey
    rw [if_pos rfl, counted?_about (m := m) (by simp [Mark.about?]), getD_counted?,
      counted_entered]
  · rw [if_neg hkey, counted?_other (by simpa [Mark.about?] using Ne.symm hkey)]

theorem counted?_started (threshold : UInt64) (key : MethodId) (marks : List Mark) (m : Method) :
    counted? threshold key (marks ++ [.started m]) =
      if key = m.id then
        let row := (counted? threshold m.id marks).getD { key := m.id, method := m.render }
        some { row with instructions := row.instructions + 1 }
      else counted? threshold key marks := by
  by_cases hkey : key = m.id
  · subst hkey
    rw [if_pos rfl, counted?_about (m := m) (by simp [Mark.about?]), getD_counted?]
    simp [counted, List.countP_append, UInt64.ofNat_add]
  · rw [if_neg hkey, counted?_other (by simpa [Mark.about?] using Ne.symm hkey)]

structure Follows (p : Profiler MethodId) (threshold : UInt64) (marks : List Mark) : Prop where
  limit : p.threshold = threshold
  rows : ∀ key, p.profile? key = counted? threshold key (sinceReset marks)
  events : p.events = (heated threshold marks).map fun m => ⟨m.render, .ofNat (hotFrom threshold)⟩

theorem Follows.record {p : Profiler MethodId} (h : p.Follows threshold marks) (mark : Mark) :
    (p.record mark).Follows threshold (marks ++ [mark]) := by
  cases mark with
  | reset =>
      refine ⟨h.limit, fun key => ?_, ?_⟩
      · rw [sinceReset_reset]
        rfl
      · rw [heated_concat, heats?_eq_none _ _ (by simp)]
        exact h.events.trans (by simp)
  | started m =>
      refine ⟨h.limit, fun key => ?_, ?_⟩
      · rw [sinceReset_concat _ (by simp), counted?_started]
        refine (profile?_recordInstruction rfl).trans ?_
        rw [h.rows, h.rows]
      · rw [heated_concat, heats?_eq_none _ _ (by simp)]
        exact h.events.trans (by simp)
  | entered m =>
      refine ⟨threshold_recordInvocation.trans h.limit, fun key => ?_, ?_⟩
      · rw [sinceReset_concat _ (by simp), counted?_entered]
        refine (profile?_recordInvocation rfl).trans ?_
        rw [h.rows, h.rows, h.limit]
      · refine (events_recordInvocation rfl).trans ?_
        rw [heated_concat, heats?_entered, List.map_append, h.events, h.rows, getD_counted?,
          h.limit]
        by_cases hfires : (sinceReset marks).countP (·.enters m.id) + 1 = hotFrom threshold
        · rw [if_pos ((fires_iff _ _ _ _).mpr hfires), if_pos hfires, ← hfires, UInt64.ofNat_add]
          rfl
        · rw [if_neg fun h => hfires ((fires_iff _ _ _ _).mp h), if_neg hfires]
          rfl

theorem follows_recordAll (threshold : UInt64) (marks : List Mark) :
    (recordAll { threshold } marks).Follows threshold marks := by
  induction marks using List.reverseRecOn with
  | nil => exact ⟨rfl, fun _ => rfl, by simp [heated, heats?, recordAll]⟩
  | append_singleton marks mark ih =>
      rw [recordAll_concat]
      exact ih.record mark

end Profiler

end ClassEngine.Machine
