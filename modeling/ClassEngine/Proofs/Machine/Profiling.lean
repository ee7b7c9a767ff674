import ClassEngine.Proofs.Machine.Tallies

/-!
# Profiling

A host that attaches a profiler gets the same replies and the same machine as one that does
not, whatever it asks for.  The counters are those of the frames pushed and the instructions
started since they were last cleared, and an event tells of every method once it is hot.
-/

namespace ClassEngine.Machine

inductive Reply where
  | done
  | number (id : ClassId)
  | value (v : Value)
  | object (r : Ref)
  | resolved (r : Resolved)
  deriving DecidableEq, Repr

namespace Exec

def replyToRequest (fuel : Nat) : Request → Exec Reply
  | .load className => do return .number (← loadClass className)
  | .prepare id => do
    initialized fuel id
    return .done
  | .invoke m args => do return .value (← invokeMethod fuel m args)
  | .invokeStatic className name descriptor args => do
    return .value (← invokeStatic fuel className name descriptor args)
  | .run className => do return .value (← runProgram fuel className)
  | .getStatic className name => do return .value (← getStatic fuel className name)
  | .newString text => do return .object (← newString text)

def replyToResolve (id : ClassId) (index : UInt16) : PoolUse → Exec Reply
  | .classRef => do return .resolved (.classRef (← resolveClass id index))
  | .field => do return .resolved (.field (← resolveField id index))
  | .method => do return .resolved (.method (← resolveMethod id index))
  | .interfaceMethod => do return .resolved (.method (← resolveInterfaceMethod id index))
  | .literal => do return .resolved (.value (← literal id index))

def reply : HostCall → Exec Reply
  | .request fuel q => replyToRequest fuel q
  | .arrayOf id => do return .number (← arrayOf id)
  | .resolve use id index => replyToResolve id index use
  | .intern text => do return .object (← intern text)
  | .newObject id => do return .object (← allocInstance id)
  | .newArray id length => do return .object (← allocArray id length)
  | .storeElement r index v => do
    storeElement r index v
    return .done
  | .setField r declaring name v => do
    setField r declaring name v
    return .done

variable {α β : Type}

theorem after_bind_pure (x : Exec α) (g : α → β) (vm : Vm) :
    after (do return g (← x)) vm = after x vm := by
  unfold after
  rw [bind_apply]
  cases x vm <;> rfl

theorem after_replied (x : Exec α) (g : α → Reply) (vm : Vm) :
    after (do return g (← x)) vm = after (do let _ ← x; return () : Exec Unit) vm :=
  (after_bind_pure x g vm).trans (after_bind_pure x (fun _ => ()) vm).symm

theorem after_reply (call : HostCall) (vm : Vm) :
    after (reply call) vm = after (answer call) vm := by
  cases call with
  | request fuel q =>
      cases q with
      | prepare id => exact after_bind_pure _ _ vm
      | _ => exact after_replied _ _ vm
  | resolve use id index => cases use <;> exact after_replied _ _ vm
  | storeElement | setField => exact after_bind_pure _ _ vm
  | _ => exact after_replied _ _ vm

instance (fuel : Nat) (q : Request) : Tallying (replyToRequest fuel q) := by
  cases q <;> unfold replyToRequest <;> infer_instance

instance (id : ClassId) (index : UInt16) (use : PoolUse) :
    Tallying (replyToResolve id index use) := by
  cases use <;> unfold replyToResolve <;> infer_instance

instance (call : HostCall) : Tallying (reply call) := by
  cases call <;> unfold reply <;> infer_instance

end Exec

/-! ## Sessions with a profiler -/

/-- What a host does: it calls the machine, or clears the counters of its profiler. -/
inductive Order where
  | call (call : HostCall)
  | reset

namespace Vm

def cleared (vm : Vm) : Vm := vm.profiledBy (vm.profiler?.map (·.reset))

/-- What a machine replies to the calls of a host, and the machine afterwards. -/
def attend (vm : Vm) : List Order → List (Except Stop Reply) × Vm
  | [] => ([], vm)
  | .call call :: orders =>
    let (replies, vm') := (Exec.after (Exec.reply call) vm).attend orders
    (Exec.outcome (Exec.reply call) vm :: replies, vm')
  | .reset :: orders => vm.cleared.attend orders

theorem attend_calls (vm : Vm) (calls : List HostCall) :
    (vm.attend (calls.map .call)).2 = vm.answer calls := by
  induction calls generalizing vm with
  | nil => rfl
  | cons call rest ih => exact (ih _).trans (by rw [Exec.after_reply]; rfl)

/-- The marks of what a host does to a machine, in order. -/
inductive Tallies : Vm → List Order → List Mark → Prop
  | nil (vm : Vm) : vm.Tallies [] []
  | call {vm : Vm} {call : HostCall} {orders : List Order} {marks later : List Mark}
      (first : Exec.Tallies (Exec.reply call) vm marks)
      (rest : (Exec.after (Exec.reply call) vm).Tallies orders later) :
      vm.Tallies (.call call :: orders) (marks ++ later)
  | reset {vm : Vm} {orders : List Order} {later : List Mark}
      (rest : vm.cleared.Tallies orders later) : vm.Tallies (.reset :: orders) (.reset :: later)

theorem exists_tallies (vm : Vm) (orders : List Order) : ∃ marks, vm.Tallies orders marks := by
  induction orders generalizing vm with
  | nil => exact ⟨[], .nil vm⟩
  | cons order rest ih =>
      cases order with
      | call call =>
          obtain ⟨marks, hfirst⟩ := Exec.Tallying.tallies (x := Exec.reply call) vm
          obtain ⟨later, hrest⟩ := ih (Exec.after (Exec.reply call) vm)
          exact ⟨marks ++ later, .call hfirst hrest⟩
      | reset =>
          obtain ⟨later, hrest⟩ := ih vm.cleared
          exact ⟨.reset :: later, .reset hrest⟩

theorem Tallies.attend {vm : Vm} {orders : List Order} {marks : List Mark}
    (h : vm.Tallies orders marks) (p? : Option (Profiler MethodId)) :
    (vm.profiledBy p?).attend orders =
      ((vm.attend orders).1, (vm.attend orders).2.profiledBy (p?.map (·.recordAll marks))) := by
  induction h generalizing p? with
  | nil vm => cases p? <;> rfl
  | call first _ ih =>
      have hfirst := Exec.profiled_of_tallies first p?
      unfold Vm.attend
      rw [Exec.outcome_of_under hfirst, Exec.after_of_under hfirst, ih]
      cases p? with
      | none => rfl
      | some p => simp only [Option.map_some, Profiler.recordAll_append]
  | reset _ ih =>
      refine (ih (p?.map (·.reset))).trans ?_
      cases p? <;> rfl

theorem Tallies.activations {vm : Vm} {orders : List Order} {marks : List Mark}
    (h : vm.Tallies orders marks) (m : Method) :
    (vm.attend orders).2.activations.count m ≤
      vm.activations.count m + marks.count (.entered m) := by
  induction h with
  | nil vm => exact Nat.le_add_right _ _
  | call first _ ih =>
      have hfirst := Exec.activations_of_tallies first m
      rw [List.count_append]
      exact ih.trans (by omega)
  | reset _ ih =>
      rw [List.count_cons_of_ne (by simp)]
      exact ih

end Vm

/-- Profiling only observes, and counts exactly.  With a profiler a machine gives a host the same
replies, and is afterwards the same but for the profiler, as one without, whatever the host
asks for and whenever it clears the counters.  The counters of a method are then the frames
pushed for it and the instructions started with its frame on top since they were last cleared,
modulo 2^64, and it is hot once its entries reach the threshold, or one.  No frame is there that
was not counted.  Events tell, in order, of the entries at which a method becomes hot: one event
while nothing is cleared for each method that becomes hot in that time, and none for another. -/
theorem profiling_only_observes (source? : Option Search.Source) (maxFrames : Int)
    (threshold : UInt64) (orders : List Order) :
    let bare := Vm.start source? maxFrames none
    let profiled := Vm.start source? maxFrames (some { threshold })
    (∀ calls, orders = calls.map .call → (bare.attend orders).2 = bare.answer calls) ∧
    (∃ marks, bare.Tallies orders marks) ∧ ∀ marks, bare.Tallies orders marks →
      (∀ m, (bare.attend orders).2.activations.count m ≤ marks.count (.entered m)) ∧
      ∃ p : Profiler MethodId,
        profiled.attend orders =
          ((bare.attend orders).1, { (bare.attend orders).2 with profiler? := some p }) ∧
        (∀ key, p.profile? key = counted? threshold key (sinceReset marks)) ∧
        p.events = (heated threshold marks).map (fun m =>
          ⟨m.render, .ofNat (hotFrom threshold)⟩) ∧
        ∀ before period after, marks = before ++ period ++ after → sinceReset before = [] →
          .reset ∉ period →
            ∃ fired, heated threshold (before ++ period) = heated threshold before ++ fired ∧
              ∀ key, fired.countP (·.id = key) =
                if hotFrom threshold ≤ period.countP (·.enters key) then 1 else 0 := by
  intro bare profiled
  refine ⟨?calls, bare.exists_tallies orders, fun marks htallies => ⟨fun m => ?frames, ?_⟩⟩
  case calls =>
    rintro calls rfl
    exact bare.attend_calls calls
  case frames => simpa [bare, Vm.activations, Vm.start] using htallies.activations m
  have hfollows := Profiler.follows_recordAll threshold marks
  refine ⟨_, htallies.attend (some { threshold }), hfollows.rows, hfollows.events, ?_⟩
  intro before period after _ hbefore hperiod
  exact heated_period threshold hbefore hperiod

end ClassEngine.Machine
