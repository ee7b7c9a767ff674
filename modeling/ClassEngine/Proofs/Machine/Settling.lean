import ClassEngine.Proofs.Machine.Rounds

/-!
# Operations that go on

Sequences, attempts, rounds and the ends of runs go on from their first part, however that part
ends.  So what operations in two parts have, all of these have.
-/

namespace ClassEngine.Machine

namespace Exec

variable {α β : Type}

def outcome (x : Exec α) (vm : Vm) : Except Stop α :=
  match x vm with
  | .ok a _ => .ok a
  | .error stop _ => .error stop

/-- An operation that goes on, however the first part of it ends. -/
def settle (x : Exec α) (rest : Except Stop α → Exec β) : Exec β :=
  fun vm => rest (outcome x vm) (after x vm)

theorem bind_eq_settle (x : Exec α) (f : α → Exec β) :
    x >>= f = settle x fun
      | .ok a => f a
      | .error stop => throw stop := by
  funext vm
  rw [bind_apply, settle, outcome, after]
  cases x vm <;> rfl

theorem attempt_eq_settle (x : Exec α) :
    attempt x = settle x fun
      | .ok a => return .ok a
      | .error (.fault e) => return .error e
      | .error stop => throw stop := by
  funext vm
  rw [attempt_apply, settle, outcome, after]
  cases x vm with
  | ok a vm' => rfl
  | error stop vm' => cases stop <;> rfl

theorem contain_eq_settle (base : Nat) (x : Exec α) :
    contain base x = settle x fun
      | .ok a => return a
      | .error (.defect d) => do
        cutTo base
        clearReturn
        fault (.internal d)
      | .error stop => throw stop := by
  funext vm
  rw [contain_apply, settle, outcome, after]
  cases x vm with
  | ok a vm' => rfl
  | error stop vm' => cases stop <;> rfl

theorem advance_eq_settle (prepare : ClassId → Exec Unit) (base : Nat) :
    advance prepare base = settle (round prepare) fun
      | .ok () => unlessReturning base (pure ())
      | .error (.thrown r) => unlessReturning base (unwind base r)
      | .error (.fault e) => unlessReturning base (raiseFault prepare base e)
      | .error stop => throw stop := by
  funext vm
  rw [advance_apply, settle, outcome, after]
  cases round prepare vm with
  | ok u vm' => rfl
  | error stop vm' => cases stop <;> rfl

theorem releaseTraces_noteEnd_eq_settle (x : Exec α) :
    releaseTraces (noteEnd x) = (settle x fun
      | .ok a => do
        modify released
        return a
      | .error (.fault e) => do
        note (.ended e)
        modify released
        fault e
      | .error stop => do
        modify released
        throw stop) := by
  funext vm
  rw [releaseTraces_noteEnd_apply, settle, outcome, after]
  cases x vm with
  | ok a vm' => rfl
  | error stop vm' => cases stop <;> rfl

end Exec

end ClassEngine.Machine
