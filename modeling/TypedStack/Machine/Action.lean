import TypedStack.Trap

/-!
# Actions

An action works on a state in place and may stop with the cause of a trap. It
does not go back then: whatever it has changed on the way stays changed. So an
action that leaves nothing behind when it stops owes this to the order of its
parts, checks first and changes that cannot fail last, and to nothing else.
-/

namespace TypedStack

/-- A change of a state that may stop with the cause of a trap, in the state it
has reached by then. -/
abbrev Action (σ α : Type) := EStateM TrapKind σ α

namespace Action

variable {σ τ α β : Type}

/-- Look at the state, and stop if what is needed is not there. -/
def check (test : σ → Except TrapKind α) : Action σ α := fun state =>
  match test state with
  | .ok a => .ok a state
  | .error kind => .error kind state

/-- Carry out an operation on a part of the state. -/
def change (get : σ → τ) (put : σ → τ → σ) (operation : τ → Except TrapKind (α × τ)) :
    Action σ α := fun state =>
  match operation (get state) with
  | .ok (a, part) => .ok a (put state part)
  | .error kind => .error kind state

/-- An operation that returns nothing but the part it has changed, as one with a
result. -/
def silent (operation : τ → Except TrapKind τ) (part : τ) : Except TrapKind (Unit × τ) :=
  (operation part).map fun part => ((), part)

@[simp] theorem silent_eq_ok {operation : τ → Except TrapKind τ} {part after : τ} {u : Unit} :
    silent operation part = .ok (u, after) ↔ operation part = .ok after := by
  unfold silent
  cases operation part <;> simp [Except.map]

@[simp] theorem silent_eq_error {operation : τ → Except TrapKind τ} {part : τ}
    {kind : TrapKind} :
    silent operation part = .error kind ↔ operation part = .error kind := by
  unfold silent
  cases operation part <;> simp [Except.map]

/-! ## Running actions -/

section Running

variable {state after : σ} {kind : TrapKind}

theorem bind_of_ok {first : Action σ β} {b : β} (h : first state = .ok b after)
    (second : β → Action σ α) : (first >>= second) state = second b after := by
  simp only [bind, EStateM.bind, h]

theorem bind_of_error {first : Action σ β} (h : first state = .error kind after)
    (second : β → Action σ α) : (first >>= second) state = .error kind after := by
  simp only [bind, EStateM.bind, h]

theorem get_bind (rest : σ → Action σ α) : (get >>= rest) state = rest state state :=
  rfl

theorem check_of_ok {test : σ → Except TrapKind α} {a : α} (h : test state = .ok a) :
    check test state = .ok a state := by
  simp only [check, h]

theorem check_of_error {test : σ → Except TrapKind α} (h : test state = .error kind) :
    check test state = .error kind state := by
  simp only [check, h]

theorem change_of_ok {get : σ → τ} {put : σ → τ → σ} {operation : τ → Except TrapKind (α × τ)}
    {a : α} {part : τ} (h : operation (get state) = .ok (a, part)) :
    change get put operation state = .ok a (put state part) := by
  simp only [change, h]

theorem change_of_error {get : σ → τ} {put : σ → τ → σ}
    {operation : τ → Except TrapKind (α × τ)} (h : operation (get state) = .error kind) :
    change get put operation state = .error kind state := by
  simp only [change, h]

end Running

/-! ## Reasoning about actions -/

/-- What holds after an action: `done` of the result and the state if it came to
its end, `trapped` of the cause and the state if it stopped before. -/
def After (action : Action σ α) (state : σ) (done : α → σ → Prop)
    (trapped : TrapKind → σ → Prop) : Prop :=
  match action state with
  | .ok a after => done a after
  | .error kind after => trapped kind after

section Rules

variable {state after : σ} {done : α → σ → Prop} {trapped : TrapKind → σ → Prop}

theorem After.of_ok {action : Action σ α} {a : α}
    (h : After action state done trapped) (hrun : action state = .ok a after) :
    done a after := by
  simpa only [After, hrun] using h

theorem After.of_error {action : Action σ α} {kind : TrapKind}
    (h : After action state done trapped) (hrun : action state = .error kind after) :
    trapped kind after := by
  simpa only [After, hrun] using h

theorem After.imp {action : Action σ α} {done' : α → σ → Prop}
    {trapped' : TrapKind → σ → Prop} (h : After action state done trapped)
    (hdone : ∀ a after, done a after → done' a after)
    (htrapped : ∀ kind after, trapped kind after → trapped' kind after) :
    After action state done' trapped' := by
  unfold After at h ⊢
  cases hrun : action state with
  | ok a after =>
    rw [hrun] at h
    exact hdone a after h
  | error kind after =>
    rw [hrun] at h
    exact htrapped kind after h

/-- Only what an action does to the state it starts in matters. -/
theorem after_congr {action action' : Action σ α} (h : action state = action' state) :
    After action state done trapped ↔ After action' state done trapped := by
  unfold After
  rw [h]

@[simp] theorem after_pure (a : α) :
    After (pure a : Action σ α) state done trapped ↔ done a state :=
  Iff.rfl

@[simp] theorem after_throw (kind : TrapKind) :
    After (throw kind : Action σ α) state done trapped ↔ trapped kind state :=
  Iff.rfl

@[simp] theorem after_get {done : σ → σ → Prop} :
    After (get : Action σ σ) state done trapped ↔ done state state :=
  Iff.rfl

@[simp] theorem after_modify (f : σ → σ) {done : PUnit → σ → Prop} :
    After (modify f : Action σ PUnit) state done trapped ↔ done ⟨⟩ (f state) :=
  Iff.rfl

/-- An action in two parts: the second starts where the first has ended. -/
@[simp] theorem after_bind (first : Action σ β) (second : β → Action σ α) :
    After (first >>= second) state done trapped ↔
      After first state (fun b middle => After (second b) middle done trapped) trapped := by
  unfold After
  simp only [bind, EStateM.bind]
  cases first state <;> rfl

theorem after_check (test : σ → Except TrapKind α) :
    After (check test) state done trapped ↔
      (∀ a, test state = .ok a → done a state) ∧
        ∀ kind, test state = .error kind → trapped kind state := by
  unfold After check
  cases test state <;> simp

theorem after_change (get : σ → τ) (put : σ → τ → σ)
    (operation : τ → Except TrapKind (α × τ)) :
    After (change get put operation) state done trapped ↔
      (∀ a part, operation (get state) = .ok (a, part) → done a (put state part)) ∧
        ∀ kind, operation (get state) = .error kind → trapped kind state := by
  unfold After change
  rcases operation (get state) with kind | ⟨a, part⟩
  · simp
  · simp +contextual [Prod.ext_iff]

end Rules

end Action

end TypedStack
