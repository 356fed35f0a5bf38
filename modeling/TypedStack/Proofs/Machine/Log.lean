import TypedStack.Machine.Action
import TypedStack.Proofs.Except

/-!
# Operations in place

An operation that returns the state it has made, or else fails, can be carried out in place: then
a failure leaves the state as it was. An action that checks first and then makes changes which
cannot fail is of this kind. A log keeps the state and what each operation has returned, so that
what holds of a state can be told from what was done with it.
-/

namespace TypedStack

namespace Action

variable {σ ι α : Type}

/-- An operation that returns the state it has made, carried out in place. -/
def inPlace (operation : σ → Except TrapKind (α × σ)) : Action σ α :=
  change id (fun _ after => after) operation

section

variable {operation : σ → Except TrapKind (α × σ)} {state after : σ} {a : α} {kind : TrapKind}

theorem inPlace_of_ok (h : operation state = .ok (a, after)) :
    inPlace operation state = .ok a after :=
  change_of_ok h

theorem inPlace_of_error (h : operation state = .error kind) :
    inPlace operation state = .error kind state :=
  change_of_error h

theorem inPlace_eq_ok :
    inPlace operation state = .ok a after ↔ operation state = .ok (a, after) := by
  rcases hresult : operation state with kind | ⟨b, made⟩
  · simp [inPlace_of_error hresult]
  · simp [inPlace_of_ok hresult]

theorem inPlace_eq_error :
    inPlace operation state = .error kind after ↔
      operation state = .error kind ∧ after = state := by
  rcases hresult : operation state with cause | ⟨b, made⟩
  · simp [inPlace_of_error hresult, eq_comm]
  · simp [inPlace_of_ok hresult]

end

/-- A check and a change that does not fail are one operation in place. -/
theorem check_bind_eq_inPlace {β : Type} {test : σ → Except TrapKind β} {rest : β → Action σ α}
    {operation : σ → Except TrapKind (α × σ)} (made : σ → β → α × σ)
    (hoperation : ∀ state, operation state = (test state).map (made state))
    (hrest : ∀ state b, test state = .ok b → rest b state = .ok (made state b).1 (made state b).2) :
    check test >>= rest = inPlace operation := by
  funext state
  cases htest : test state with
  | error kind =>
    have hmade : operation state = .error kind := (hoperation state).trans (map_eq_error.2 htest)
    exact (bind_of_error (check_of_error htest) rest).trans (inPlace_of_error hmade).symm
  | ok b =>
    have hmade : operation state = .ok (made state b) :=
      (hoperation state).trans (map_eq_ok.2 ⟨b, rfl, htest⟩)
    rw [bind_of_ok (check_of_ok htest), hrest state b htest]
    exact (inPlace_of_ok hmade).symm

theorem check_eq_inPlace (test : σ → Except TrapKind α) :
    check test = inPlace fun state => (test state).map fun a => (a, state) :=
  (bind_pure (check test)).symm.trans
    (check_bind_eq_inPlace (fun state a => (a, state)) (fun _ => rfl) fun _ _ _ => rfl)

/-! ## Logs -/

/-- An operation that was carried out, and what it returned. -/
structure Note (ι α : Type) where
  operation : ι
  result : Except TrapKind α

/-- A state and what was done with it, the latest operation first. -/
structure Log (σ ι α : Type) where
  state : σ
  notes : List (Note ι α)

namespace Log

/-- Carry out an operation and note what it returned. -/
def perform (act : ι → Action σ α) (log : Log σ ι α) (operation : ι) : Log σ ι α :=
  match act operation log.state with
  | .ok a after => ⟨after, ⟨operation, .ok a⟩ :: log.notes⟩
  | .error kind after => ⟨after, ⟨operation, .error kind⟩ :: log.notes⟩

/-- Carry out operations one after the other. -/
def run (act : ι → Action σ α) (state : σ) (operations : List ι) : Log σ ι α :=
  operations.foldl (perform act) ⟨state, []⟩

end Log

/-- All operations are noted. -/
theorem Log.operations_run (act : ι → Action σ α) (state : σ) (operations : List ι) :
    (run act state operations).notes.map (·.operation) = operations.reverse := by
  have hperform (log : Log σ ι α) (operation : ι) :
      (log.perform act operation).notes.map (·.operation) =
        operation :: log.notes.map (·.operation) := by
    unfold perform
    cases act operation log.state <;> rfl
  have hfoldl (operations : List ι) (log : Log σ ι α) :
      (operations.foldl (perform act) log).notes.map (·.operation) =
        operations.reverse ++ log.notes.map (·.operation) := by
    induction operations generalizing log with
    | nil => rfl
    | cons operation rest ih => rw [List.foldl_cons, ih, hperform]; simp
  rw [run, hfoldl, List.map_nil, List.append_nil]

/-- Induction over logs of operations that return the state they have made: such an operation
has succeeded, or it has failed and left the state as it was. -/
theorem Log.induct {act : ι → Action σ α} {apply : ι → σ → Except TrapKind (α × σ)}
    (hact : ∀ operation, act operation = inPlace (apply operation))
    {state : σ} {motive : Log σ ι α → Prop} (hstart : motive ⟨state, []⟩)
    (hok : ∀ log operation a after, motive log → apply operation log.state = .ok (a, after) →
      motive ⟨after, ⟨operation, .ok a⟩ :: log.notes⟩)
    (herror : ∀ log operation kind, motive log → apply operation log.state = .error kind →
      motive ⟨log.state, ⟨operation, .error kind⟩ :: log.notes⟩)
    (operations : List ι) : motive (run act state operations) := by
  refine List.foldlRecOn operations (perform act) hstart ?_
  intro log hlog operation _
  unfold perform
  rw [hact]
  cases hrun : inPlace (apply operation) log.state with
  | ok a after => exact hok log operation a after hlog (inPlace_eq_ok.1 hrun)
  | error kind after =>
    obtain ⟨happly, rfl⟩ := inPlace_eq_error.1 hrun
    exact herror log operation kind hlog happly

end Action

end TypedStack
