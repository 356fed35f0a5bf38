import TypedStack.Proofs.Machine.Reachable

/-!
# Every run ends

The weight of a machine falls with every step, so it bounds the number of steps
to the outcome. No single frame shows this: a call starts a whole function over.
What is true of a frame is that it only moves forward. Other frames may come and
go above it in the meantime, but an offset that was executed in an activation is
not executed in it again.
-/

namespace TypedStack

namespace Machine

/-! ## Steps of a run -/

theorem steps_add (machine : Machine) (m n : Nat) :
    machine.steps (m + n) = (machine.steps m).steps n := by
  induction m generalizing machine with
  | zero => simp [steps]
  | succ m ih =>
    rw [Nat.succ_add]
    exact ih machine.step

theorem steps_succ (machine : Machine) (n : Nat) :
    machine.steps (n + 1) = (machine.steps n).step := by
  rw [steps_add]
  rfl

theorem steps_of_outcome
    {machine : Machine} {outcome : Outcome} (h : machine.outcome = some outcome) (n : Nat) :
    machine.steps n = machine := by
  induction n with
  | zero => rfl
  | succ n ih => rw [steps_succ, ih, step_of_outcome h]

/-- A run that goes on after some steps has gone on all the time. -/
theorem running_of_le
    {machine : Machine} {m n : Nat} (hmn : m ≤ n) (h : (machine.steps n).outcome = none) :
    (machine.steps m).outcome = none := by
  cases houtcome : (machine.steps m).outcome with
  | none => rfl
  | some outcome =>
    obtain ⟨k, rfl⟩ := Nat.exists_eq_add_of_le hmn
    rw [steps_add, steps_of_outcome houtcome, houtcome] at h
    exact h

theorem running_of_step
    {machine : Machine} (h : machine.step.outcome = none) : machine.outcome = none :=
  running_of_le (Nat.zero_le 1) h

theorem run_of_outcome
    {machine : Machine} {outcome : Outcome} (h : machine.outcome = some outcome) :
    machine.run = outcome := by
  rw [run]
  split <;> simp_all

theorem run_step (machine : Machine) : machine.step.run = machine.run := by
  cases houtcome : machine.outcome with
  | some outcome => rw [step_of_outcome houtcome]
  | none =>
    conv => rhs; rw [run]
    split <;> simp_all

theorem run_of_transition {machine after : Machine} (h : machine.outcome = none)
    (htransition : Transition machine .continue after) : machine.run = after.run := by
  rw [← run_step, step_of_continue h (execute_of_transition htransition)]

theorem run_of_blocked {machine : Machine} {kind : TrapKind} (h : machine.outcome = none)
    (hblocked : Blocked machine kind) :
    machine.run = .error ⟨kind, machine.frame.function, machine.frame.pc⟩ := by
  obtain ⟨after, hexecute⟩ := execute_of_blocked hblocked
  rw [← run_step, step_of_error h hexecute]
  exact run_of_outcome rfl

theorem run_of_returned {machine after : Machine} {values : List Value}
    (h : machine.outcome = none)
    (htransition : Transition machine (.returned values) after) : machine.run = .ok values := by
  rw [← run_step, step_of_returned h (execute_of_transition htransition)]
  exact run_of_outcome rfl

/-- The outcome of a run is the one found after enough steps. -/
theorem run_eq_of_steps
    {machine : Machine} {n : Nat} {outcome : Outcome}
    (h : (machine.steps n).outcome = some outcome) : machine.run = outcome := by
  induction n generalizing machine with
  | zero => exact run_of_outcome h
  | succ n ih =>
    rw [← run_step]
    exact ih h

theorem exists_steps_outcome (machine : Machine) :
    ∃ n ≤ machine.weight, ∃ outcome, (machine.steps n).outcome = some outcome := by
  -- the recursion of `run`, which is on the weight
  fun_induction run machine with
  | case1 machine outcome houtcome => exact ⟨0, Nat.zero_le _, outcome, houtcome⟩
  | case2 machine houtcome hlt ih =>
    obtain ⟨n, hn, outcome, hsteps⟩ := ih
    exact ⟨n + 1, by omega, outcome, hsteps⟩

/-- What a program is invoked for is found in a state of its run. -/
theorem exists_reachable_of_invoke
    {program : Program} {heap : Heap} {limits : Limits} {activation : Activation}
    {outcome : Outcome} (h : invoke program heap limits activation = .ok outcome) :
    ∃ machine, Reachable program heap limits activation machine ∧
      machine.outcome = some outcome := by
  unfold invoke at h
  cases hstart : start program heap limits activation with
  | error e =>
    rw [hstart] at h
    cases h
  | ok machine =>
    rw [hstart] at h
    obtain ⟨n, -, found, hfound⟩ := exists_steps_outcome machine
    refine ⟨machine.steps n, (Reachable.start hstart).steps n, ?_⟩
    rw [hfound, ← run_eq_of_steps hfound]
    exact congrArg some (Except.ok.inj h)

/-- A run that goes on has a last step, the one that brings the outcome. -/
theorem exists_last_step
    {machine : Machine} (h : machine.outcome = none) :
    ∃ n outcome, (machine.steps n).outcome = none ∧
      (machine.steps (n + 1)).outcome = some outcome := by
  fun_induction run machine with
  | case1 machine outcome houtcome => simp [houtcome] at h
  | case2 machine _ _ ih =>
    cases houtcome : machine.step.outcome with
    | some outcome => exact ⟨0, outcome, h, houtcome⟩
    | none =>
      obtain ⟨n, outcome, hlast, hended⟩ := ih houtcome
      exact ⟨n + 1, outcome, hlast, hended⟩

/-! ## Activations -/

@[simp] theorem length_frames (machine : Machine) : machine.frames.length = machine.depth :=
  rfl

/-- A step that leaves the run going is a transition. -/
theorem transition_of_running
    {machine : Machine} (h : machine.step.outcome = none) :
    Transition machine .continue machine.step := by
  rcases step_outcome_cases (running_of_step h) with
    ⟨kind, after, -, houtcome⟩ | ⟨hexecute, -⟩ | ⟨values, after, -, houtcome⟩
  · simp [houtcome] at h
  · exact transition_of_execute hexecute
  · simp [houtcome] at h

/-- A frame that is live before a transition and not left by it stays where it is
among the live frames and does not move back. If it is innermost, it moves
forward. -/
theorem Transition.moves_forward
    {machine after : Machine} (h : Transition machine .continue after)
    {above callers : List Frame} {frame : Frame}
    (hframes : machine.frames = above ++ frame :: callers)
    (hdepth : callers.length < after.depth) :
    ∃ above' frame', after.frames = above' ++ frame' :: callers ∧
      frame'.function = frame.function ∧ frame.pc ≤ frame'.pc ∧
      (above = [] → frame.pc < frame'.pc) := by
  cases h with
  | @within _ _ next performedFrame fetched _ _ performed =>
    have hkept := (Frame.keeps_perform _ _ _).of_ok performed
    have hpc := fetched.pc_lt
    cases above with
    | nil =>
      obtain ⟨rfl, rfl⟩ := List.cons.inj hframes
      exact ⟨[], { performedFrame with pc := next }, rfl, hkept.function, Nat.le_of_lt hpc,
        fun _ => hpc⟩
    | cons top above =>
      obtain ⟨rfl, hcallers⟩ := List.cons.inj hframes
      refine ⟨{ performedFrame with pc := next } :: above, frame, ?_, rfl, Nat.le_refl _, by simp⟩
      exact congrArg (List.cons _) hcallers
  | @enter _ callee next index args stack fetched _ _ _ =>
    have hpc := fetched.pc_lt
    cases above with
    | nil =>
      obtain ⟨rfl, rfl⟩ := List.cons.inj hframes
      exact ⟨[.enter index args callee.locals.toNat machine.limits.stack],
        { machine.frame with pc := next, stack }, rfl, rfl, Nat.le_of_lt hpc, fun _ => hpc⟩
    | cons top above =>
      obtain ⟨rfl, hcallers⟩ := List.cons.inj hframes
      refine ⟨.enter index args callee.locals.toNat machine.limits.stack ::
        { machine.frame with pc := next, stack } :: above, frame, ?_, rfl, Nat.le_refl _, by simp⟩
      exact congrArg (fun rest => _ :: _ :: rest) hcallers
  | @leave _ _ caller rest stack _ _ callers_eq _ =>
    rw [frames, callers_eq] at hframes
    rcases above with _ | ⟨_, _ | ⟨_, above⟩⟩
    · -- the frame itself would have been left
      obtain ⟨rfl, rfl⟩ := List.cons.inj hframes
      simp [depth, resume] at hdepth
    · obtain ⟨-, hcallers⟩ := List.cons.inj hframes
      obtain ⟨rfl, rfl⟩ := List.cons.inj hcallers
      exact ⟨[], { caller with stack }, rfl, rfl, Nat.le_refl _, by simp⟩
    · obtain ⟨-, hcallers⟩ := List.cons.inj hframes
      obtain ⟨rfl, rfl⟩ := List.cons.inj hcallers
      exact ⟨{ caller with stack } :: above, frame, rfl, rfl, Nat.le_refl _, by simp⟩

/-- As long as the innermost frame is not left, it is found among the live frames
behind the offset it started from. -/
theorem innermost_moves_forward
    {machine : Machine} {n : Nat} (hrunning : (machine.steps (n + 1)).outcome = none)
    (hdepth : ∀ k ≤ n + 1, machine.depth ≤ (machine.steps k).depth) :
    ∃ above frame, (machine.steps (n + 1)).frames = above ++ frame :: machine.callers ∧
      frame.function = machine.frame.function ∧ machine.frame.pc < frame.pc := by
  induction n with
  | zero =>
    have htransition := transition_of_running hrunning
    have hframes : machine.frames = [] ++ machine.frame :: machine.callers := rfl
    obtain ⟨above, frame, hframes, hfunction, -, hpc⟩ :=
      htransition.moves_forward hframes (hdepth 1 (Nat.le_refl _))
    exact ⟨above, frame, hframes, hfunction, hpc rfl⟩
  | succ n ih =>
    have hbefore := running_of_le (Nat.le_succ (n + 1)) hrunning
    obtain ⟨above, frame, hframes, hfunction, hpc⟩ :=
      ih hbefore fun k hk => hdepth k (by omega)
    have hlast := hdepth (n + 2) (Nat.le_refl _)
    rw [steps_succ] at hrunning hlast ⊢
    obtain ⟨above', frame', hframes', hfunction', hpc', -⟩ :=
      (transition_of_running hrunning).moves_forward hframes hlast
    exact ⟨above', frame', hframes', hfunction'.trans hfunction, Nat.lt_of_lt_of_le hpc hpc'⟩

/-- The instructions executed after `i` and after `j` steps belong to the same
activation: it is the innermost one both times, and the depth has not fallen
below its own in between, so it was not left. -/
def SameActivation (machine : Machine) (i j : Nat) : Prop :=
  (machine.steps i).depth = (machine.steps j).depth ∧
    ∀ k, i ≤ k → k ≤ j → (machine.steps i).depth ≤ (machine.steps k).depth

/-- Every run comes to an outcome, which is what `run` returns, after at most as
many steps as the weight says. Of two instructions executed in one activation, the
later one stands behind the earlier in the code of the same function, so none is
executed twice. -/
theorem run_ends_and_activations_move_forward (machine : Machine) :
    (∃ n ≤ machine.weight, ∃ outcome,
      (machine.steps n).outcome = some outcome ∧ machine.run = outcome) ∧
    ∀ i j, i < j → (machine.steps j).outcome = none → machine.SameActivation i j →
      (machine.steps j).frame.function = (machine.steps i).frame.function ∧
        (machine.steps i).frame.pc < (machine.steps j).frame.pc := by
  constructor
  · obtain ⟨n, hn, outcome, houtcome⟩ := exists_steps_outcome machine
    exact ⟨n, hn, outcome, houtcome, run_eq_of_steps houtcome⟩
  · intro i j hij hrunning hsame
    obtain ⟨n, rfl⟩ := Nat.exists_eq_add_of_lt hij
    obtain ⟨hdepth, hlive⟩ := hsame
    rw [Nat.add_assoc, steps_add] at hrunning hdepth ⊢
    have hlive' : ∀ k ≤ n + 1, (machine.steps i).depth ≤ ((machine.steps i).steps k).depth := by
      intro k hk
      rw [← steps_add]
      exact hlive (i + k) (Nat.le_add_right i k) (by omega)
    obtain ⟨above, frame, hframes, hfunction, hpc⟩ :=
      innermost_moves_forward hrunning hlive'
    -- at the depth of the activation there is nothing above it
    have habove : above = [] := by
      have hlength := congrArg List.length hframes
      rw [length_frames, ← hdepth, List.length_append, List.length_cons, depth] at hlength
      exact List.eq_nil_of_length_eq_zero (by omega)
    rw [habove] at hframes
    obtain ⟨hframe, -⟩ := List.cons.inj hframes
    rw [hframe]
    exact ⟨hfunction, hpc⟩

/-- A function that calls another goes on behind the call in the same
activation. -/
theorem activation_moves_forward_over_call :
    ∃ machine : Machine,
      Machine.start
        ⟨#[⟨"outer", 0, 0, 0, #[12, 1, 0, 13]⟩, ⟨"inner", 0, 0, 0, #[13]⟩], some 0⟩
        (.empty .retain) ⟨0, 2⟩ .empty = .ok machine ∧
      (machine.steps 1).depth = 2 ∧ machine.SameActivation 0 2 ∧
      (machine.steps 0).frame.pc < (machine.steps 2).frame.pc := by
  refine ⟨_, rfl, rfl, ?_⟩
  suffices hsame : SameActivation _ 0 2 from
    ⟨hsame, ((run_ends_and_activations_move_forward _).2 0 2 (by decide) rfl hsame).2⟩
  refine ⟨rfl, fun k _ hk => ?_⟩
  match k, hk with
  | 0, _ => decide
  | 1, _ => decide
  | 2, _ => decide

end Machine

end TypedStack
