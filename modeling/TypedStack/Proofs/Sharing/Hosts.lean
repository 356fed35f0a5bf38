import Mathlib.Logic.Function.Basic
import TypedStack.Machine.Shared
import TypedStack.Proofs.Heap.History
import TypedStack.Proofs.Sharing.Texts

/-!
# Hosts that share a heap

Several hosts use one heap behind a lock. Each makes an activation of its texts in one
critical section and runs its program on it in another, and between the two anything may
happen to the heap: other hosts come and go, objects are put in, and objects are taken out,
save those that hosts have made for their activations. These stay in their places, whatever
becomes of the places around them, and the run sees nothing else. So a host gets what it
would get alone, up to places.
-/

namespace TypedStack

/-- A program and the texts that it is to be run on. -/
structure Host where
  program : Program
  limits : Limits
  texts : List String

/-- How far a host has come. It is done with an error of the heap, or else with what running its
program gave. -/
inductive Host.Stage where
  | idle
  | ready (activation : Activation)
  | done (result : Except HeapError (Except SetupError Outcome))

/-- The stage of a host that has made its activation, or has failed to. -/
def Host.Stage.ofSetUp : Except HeapError Activation → Stage
  | .ok activation => ready activation
  | .error e => done (.error e)

/-- A shared heap, how far each host has come, and the addresses that are to be left alone. -/
structure Sharing (ι : Type) where
  shared : SharedHeap
  stage : ι → Host.Stage
  reserved : Address → Prop

namespace Sharing

variable {ι : Type}

/-- Nothing has happened yet. -/
def start (policy : ReclaimPolicy) : Sharing ι where
  shared := .ofHeap (.empty policy)
  stage _ := .idle
  reserved _ := False

/-- There is an object at an address where there was none. -/
def Allocated (before after : Heap) (address : Address) : Prop :=
  before.object? address = none ∧ after.isLive address = true

/-- One critical section. -/
inductive Step [DecidableEq ι] (hosts : ι → Host) (state : Sharing ι) : Sharing ι → Prop where
  | setUp {host : ι} {result : Except HeapError Activation} {shared : SharedHeap}
      (idle : state.stage host = .idle)
      (locked : state.shared.update (Activation.ofTexts (hosts host).texts) =
        some (result, shared)) :
      Step hosts state {
        shared
        stage := Function.update state.stage host (.ofSetUp result)
        reserved := fun address =>
          state.reserved address ∨ Allocated state.shared.heap shared.heap address }
  | invoke {host : ι} {activation : Activation} {result : Except SetupError Outcome}
      {shared : SharedHeap} (ready : state.stage host = .ready activation)
      (locked : Machine.invokeShared (hosts host).program state.shared (hosts host).limits
        activation = some (result, shared)) :
      Step hosts state {
        state with shared, stage := Function.update state.stage host (.done (.ok result)) }
  | operate {operation : Heap.Operation} {result : Except HeapError Heap.Answer}
      {shared : SharedHeap}
      (spared : ∀ address, operation = .release address → ¬state.reserved address)
      (locked : state.shared.update operation.update = some (result, shared)) :
      Step hosts state { state with shared }

/-- What critical sections lead to, in whatever order they come. -/
inductive Reachable [DecidableEq ι] (hosts : ι → Host) (policy : ReclaimPolicy) :
    Sharing ι → Prop where
  | start : Reachable hosts policy (start policy)
  | step {state after : Sharing ι} (h : Reachable hosts policy state)
      (step : Step hosts state after) : Reachable hosts policy after

end Sharing

/-! ## Sections under the lock -/

namespace SharedHeap

variable {heap after : Heap} {α : Type} {work : Heap.Update α}

theorem update_of_ok {a : α} (h : work heap = .ok a after) :
    (ofHeap heap).update work = some (.ok a, ofHeap after) := by
  simp only [update, withLock, ofHeap, tryLock, Bool.false_eq_true, if_false, Option.map_some, h]
  rfl

theorem update_of_error {e : HeapError} (h : work heap = .error e after) :
    (ofHeap heap).update work = some (.error e, ofHeap after) := by
  simp only [update, withLock, ofHeap, tryLock, Bool.false_eq_true, if_false, Option.map_some, h]
  rfl

theorem update_operation (operation : Heap.Operation) :
    (ofHeap heap).update operation.update =
      some ((operation.perform heap).1, ofHeap (operation.perform heap).2) := by
  unfold Heap.Operation.perform
  cases h : operation.update heap with
  | ok answer after => exact update_of_ok h
  | error e after => exact update_of_error h

end SharedHeap

theorem Machine.invokeShared_ofHeap
    (program : Program) (heap : Heap) (limits : Limits) (activation : Activation) :
    invokeShared program (.ofHeap heap) limits activation =
      some (invoke program heap limits activation, .ofHeap heap) := rfl

namespace Heap

variable {heap after : Heap} {operation : Operation} {result : Except HeapError Answer}

theorem Performed.consistent
    (h : Performed heap operation result after) (hheap : heap.Consistent) : after.Consistent := by
  cases h with
  | created _ inserted => exact hheap.of_inserted inserted
  | released _ object_eq => exact hheap.vacate object_eq
  | failed _ => exact hheap

theorem Performed.size_le (h : Performed heap operation result after) :
    heap.entries.size ≤ after.entries.size := by
  cases h with
  | created _ inserted => exact inserted.size_le
  | released _ _ => simp [vacate]
  | failed _ => exact Nat.le_refl _

/-- An operation takes away nothing but what it releases. -/
theorem Performed.object?_of_spared
    (h : Performed heap operation result after) (hheap : heap.Consistent) {address : Address}
    (hspared : operation ≠ .release address) {object : HeapObject}
    (hobject : heap.object? address = some object) : after.object? address = some object := by
  cases h with
  | created _ inserted => exact inserted.extends hheap address object hobject
  | released operation_eq object_eq =>
    have hne : address ≠ _ := fun hsame => hspared (hsame ▸ operation_eq)
    rw [object?_vacate object_eq, if_neg hne]
    exact hobject
  | failed _ => exact hobject

end Heap

/-! ## What holds of every host -/

namespace Host

/-- The result is that of the host alone on a fresh heap of either policy: its texts fit into it,
and its program gives the same there, with all that it can reach moved to places of its
own. -/
def RunsAlike (host : Host) (result : Except HeapError (Except SetupError Outcome)) : Prop :=
  ∀ policy, ∃ activation heap ρ,
    Activation.ofTexts host.texts (.empty policy) = .ok activation heap ∧
    (∀ reference reference', heap.Reaches activation.Refers reference →
      heap.Reaches activation.Refers reference' →
      ρ reference.address = ρ reference'.address → reference.address = reference'.address) ∧
    result = .ok ((Machine.invoke host.program heap host.limits activation).map
      (Outcome.relocate ρ))

variable {host : Host} {heap after : Heap} {reserved reserved' : Address → Prop}

theorem runsAlike_of_provided
    {places : List Address} {array : Address}
    (h : Activation.Provided heap host.texts places array) :
    host.RunsAlike
      (.ok (Machine.invoke host.program heap host.limits (Activation.ofArrayAt array))) := by
  intro policy
  have halone : Activation.ofTexts host.texts (.empty policy) =
      .ok (Activation.ofArray host.texts.length)
        ((Heap.empty policy).append (Activation.textObjects 0 host.texts)) := by
    have hroom : (Heap.empty policy).entries.size + host.texts.length < Heap.maxPlaces := by
      simpa [Heap.empty] using h.room
    simpa [Heap.empty] using @Activation.ofTexts_of_room (.empty policy) host.texts rfl hroom
  refine ⟨_, _, Activation.toPlace (places ++ [array]), halone, ?_, ?_⟩
  · intro reference reference' hreaches hreaches'
    exact h.toPlace_injective hreaches hreaches'
  · rw [h.invoke_eq policy]

/-- What is known of a host at each stage. Its activation refers to texts and an array that are
to be left alone; once it is done, it has what it would have alone, unless all places of the
heap were taken. -/
def Sound (host : Host) (heap : Heap) (reserved : Address → Prop) : Stage → Prop
  | .idle => True
  | .ready activation => ∃ places array, activation = Activation.ofArrayAt array ∧
      Activation.Provided heap host.texts places array ∧
      ∀ place ∈ places ++ [array], reserved place
  | .done result =>
      (result = .error .exhausted ∧ Heap.maxPlaces ≤ heap.entries.size) ∨ host.RunsAlike result

/-- A host is not concerned by what others do to other objects. -/
theorem Sound.mono
    {stage : Stage} (h : host.Sound heap reserved stage)
    (hsize : heap.entries.size ≤ after.entries.size)
    (hkept : ∀ address, reserved address → ∀ object, heap.object? address = some object →
      after.object? address = some object)
    (hreserved : ∀ address, reserved address → reserved' address) :
    host.Sound after reserved' stage := by
  cases stage with
  | idle => trivial
  | ready activation =>
    obtain ⟨places, array, hactivation, hprovided, hplaces⟩ := h
    exact ⟨places, array, hactivation,
      hprovided.keep fun place hplace => hkept place (hplaces place hplace),
      fun place hplace => hreserved place (hplaces place hplace)⟩
  | done result =>
    rcases h with ⟨hexhausted, hfull⟩ | halike
    · exact .inl ⟨hexhausted, Nat.le_trans hfull hsize⟩
    · exact .inr halike

/-- Making an activation leaves a host with it, or without a place for it. -/
theorem exists_ofTexts
    (host : Host) (hheap : heap.Consistent) (reserved : Address → Prop) :
    ∃ result after,
      (SharedHeap.ofHeap heap).update (Activation.ofTexts host.texts) =
        some (result, .ofHeap after) ∧
      heap.Grown after ∧
      host.Sound after (fun address => reserved address ∨ Sharing.Allocated heap after address)
        (.ofSetUp result) := by
  rcases Activation.ofTexts_cases hheap host.texts with ⟨after, hgrown, hfull, herror⟩ |
    ⟨places, array, after, hgrown, hprovided, hvacant, hok⟩
  · exact ⟨_, after, SharedHeap.update_of_error herror, hgrown, .inl ⟨rfl, hfull⟩⟩
  · refine ⟨_, after, SharedHeap.update_of_ok hok, hgrown, places, array, rfl, hprovided, ?_⟩
    intro place hplace
    obtain ⟨object, hobject⟩ := hprovided.exists_object place hplace
    exact .inr ⟨hvacant place hplace, by rw [Heap.isLive, hobject]; rfl⟩

end Host

namespace Sharing

variable {ι : Type} [DecidableEq ι] {hosts : ι → Host} {policy : ReclaimPolicy}
  {state after : Sharing ι}

/-- The lock is free between sections, the heap is consistent, and each host is sound. -/
structure Invariant (hosts : ι → Host) (state : Sharing ι) : Prop where
  shared_eq : state.shared = .ofHeap state.shared.heap
  consistent : state.shared.heap.Consistent
  sound : ∀ host, (hosts host).Sound state.shared.heap state.reserved (state.stage host)

omit [DecidableEq ι] in
theorem invariant_start (hosts : ι → Host) (policy : ReclaimPolicy) :
    Invariant hosts (start policy) where
  shared_eq := rfl
  consistent := Heap.consistent_empty policy
  sound _ := trivial

theorem Invariant.step (h : Invariant hosts state) (hstep : Step hosts state after) :
    Invariant hosts after := by
  obtain ⟨hshared, hheap, hsound⟩ := h
  cases hstep with
  | @setUp host result shared idle locked =>
    obtain ⟨found, heap, hsection, hgrown, hhost⟩ :=
      (hosts host).exists_ofTexts hheap state.reserved
    rw [hshared, hsection] at locked
    cases locked
    refine ⟨rfl, hgrown.consistent, ?_⟩
    intro other
    by_cases hother : other = host
    · simp only [hother, Function.update_self]
      exact hhost
    · simp only [Function.update_of_ne hother]
      exact (hsound other).mono hgrown.size_le (fun address _ => hgrown.extends address)
        fun address => .inl
  | @invoke host activation result shared ready locked =>
    rw [hshared, Machine.invokeShared_ofHeap] at locked
    cases locked
    refine ⟨rfl, hheap, ?_⟩
    intro other
    by_cases hother : other = host
    · simp only [hother, Function.update_self]
      have hready := hsound host
      rw [ready] at hready
      obtain ⟨places, array, rfl, hprovided, -⟩ := hready
      exact .inr (Host.runsAlike_of_provided hprovided)
    · simp only [Function.update_of_ne hother]
      exact hsound other
  | @operate operation result shared spared locked =>
    rw [hshared, SharedHeap.update_operation] at locked
    cases locked
    have hperformed := Heap.performed operation state.shared.heap
    refine ⟨rfl, hperformed.consistent hheap, ?_⟩
    intro host
    refine (hsound host).mono hperformed.size_le ?_ fun address => id
    intro address hreserved object
    exact hperformed.object?_of_spared hheap fun hrelease => spared address hrelease hreserved

theorem Reachable.invariant (h : Reachable hosts policy state) : Invariant hosts state := by
  induction h with
  | start => exact invariant_start hosts policy
  | step _ hstep ih => exact ih.step hstep

/-- Hosts that share a heap do not disturb each other. In whatever order their sections and those
of others come, a host that is done has the outcome that it has alone on a fresh heap, up to
the places of the objects, or else found all places of the shared heap taken. And no host
ever has to wait: the section it is at can be carried out, and brings it to its next stage. -/
theorem hosts_undisturbed
    (hosts : ι → Host) (policy : ReclaimPolicy) {state : Sharing ι}
    (h : Reachable hosts policy state) (host : ι) :
    (∀ result, state.stage host = .done result →
      (result = .error .exhausted ∧ Heap.maxPlaces ≤ state.shared.heap.entries.size) ∨
        (hosts host).RunsAlike result) ∧
    (state.stage host = .idle → ∃ after result, Step hosts state after ∧
      after.stage host = .ofSetUp result) ∧
    ∀ activation, state.stage host = .ready activation → ∃ after result,
      Step hosts state after ∧ after.stage host = .done result := by
  have hinvariant := h.invariant
  refine ⟨?_, ?_, ?_⟩
  · intro result hdone
    have hsound := hinvariant.sound host
    rw [hdone] at hsound
    exact hsound
  · intro hidle
    obtain ⟨result, heap, hsection, -⟩ :=
      (hosts host).exists_ofTexts hinvariant.consistent state.reserved
    rw [← hinvariant.shared_eq] at hsection
    exact ⟨_, result, .setUp hidle hsection, Function.update_self ..⟩
  · intro activation hready
    have hsection := Machine.invokeShared_ofHeap (hosts host).program state.shared.heap
      (hosts host).limits activation
    rw [← hinvariant.shared_eq] at hsection
    exact ⟨_, _, .invoke hready hsection, Function.update_self ..⟩

/-- Two hosts that return the text in the array they are given, which is another for each. -/
def openers (first : Bool) : Host where
  program := .single ⟨"open", 1, 0, 1, #[4, 0, 8, 1, 13]⟩
  limits := ⟨1, 1⟩
  texts := [if first then "x" else "y"]

/-- The heap in which the first of them has its activation, behind another object. -/
def openedBehind : Heap :=
  ⟨.recycle, #[⟨0, some (.ofBytes [1])⟩, ⟨0, some (Activation.textObject "x")⟩,
    ⟨0, some (Activation.arrayOf [⟨1, 0⟩])⟩], [], 3⟩

/-- The heap in which both have. The text of the second is where the other object was. -/
def openedBoth : Heap :=
  ⟨.recycle, #[⟨1, some (Activation.textObject "y")⟩, ⟨0, some (Activation.textObject "x")⟩,
    ⟨0, some (Activation.arrayOf [⟨1, 0⟩])⟩, ⟨0, some (Activation.arrayOf [⟨0, 1⟩])⟩], [], 4⟩

/-- An object is released between the sections of the first host, and the second host gets its
place. Both return their own texts. -/
theorem hosts_undisturbed_recycled :
    ∃ state, Reachable openers .recycle state ∧
      state.stage true = .done (.ok (.ok (.ok [.ref ⟨⟨1, 0⟩, .integer .u8⟩]))) ∧
      state.stage false = .done (.ok (.ok (.ok [.ref ⟨⟨0, 1⟩, .integer .u8⟩]))) ∧
      (openers true).RunsAlike (.ok (.ok (.ok [.ref ⟨⟨1, 0⟩, .integer .u8⟩]))) ∧
      (openers false).RunsAlike (.ok (.ok (.ok [.ref ⟨⟨0, 1⟩, .integer .u8⟩]))) := by
  have hcreated := (@Reachable.start Bool _ openers .recycle).step
    (@Step.operate Bool _ openers _ (.createBytes [1]) (.ok (.address ⟨0, 0⟩)) _ nofun rfl)
  have hfirst := hcreated.step (@Step.setUp Bool _ openers _ true (.ok (.ofArrayAt ⟨2, 0⟩))
    (.ofHeap openedBehind) rfl rfl)
  have hreleased := hfirst.step (@Step.operate Bool _ openers _ (.release ⟨0, 0⟩)
    (.ok (.object (.ofBytes [1]))) (.ofHeap (openedBehind.vacate ⟨0, 0⟩)) (by
      rintro _ ⟨⟩ (hreserved | ⟨hvacant, -⟩)
      · exact hreserved
      · cases hvacant) rfl)
  have hsecond := hreleased.step (@Step.setUp Bool _ openers _ false (.ok (.ofArrayAt ⟨3, 0⟩))
    (.ofHeap openedBoth) rfl rfl)
  have hrun : Machine.invoke (openers true).program openedBoth ⟨1, 1⟩ (.ofArrayAt ⟨2, 0⟩) =
      .ok (.ok [.ref ⟨⟨1, 0⟩, .integer .u8⟩]) :=
    congrArg Except.ok (Machine.run_eq_of_steps (n := 3) rfl)
  have hrun' : Machine.invoke (openers false).program openedBoth ⟨1, 1⟩ (.ofArrayAt ⟨3, 0⟩) =
      .ok (.ok [.ref ⟨⟨0, 1⟩, .integer .u8⟩]) :=
    congrArg Except.ok (Machine.run_eq_of_steps (n := 3) rfl)
  have hdone := hsecond.step (@Step.invoke Bool _ openers _ true (.ofArrayAt ⟨2, 0⟩) _ _ rfl
    (Machine.invokeShared_ofHeap ..))
  have hboth := hdone.step (@Step.invoke Bool _ openers _ false (.ofArrayAt ⟨3, 0⟩) _ _ rfl
    (Machine.invokeShared_ofHeap ..))
  obtain ⟨state, hreachable, hstage, hstage'⟩ : ∃ state, Reachable openers .recycle state ∧
      state.stage true = .done (.ok (.ok (.ok [.ref ⟨⟨1, 0⟩, .integer .u8⟩]))) ∧
      state.stage false = .done (.ok (.ok (.ok [.ref ⟨⟨0, 1⟩, .integer .u8⟩]))) :=
    ⟨_, hboth, congrArg (fun result => Host.Stage.done (.ok result)) hrun,
      congrArg (fun result => Host.Stage.done (.ok result)) hrun'⟩
  refine ⟨state, hreachable, hstage, hstage', ?_, ?_⟩
  · exact ((hosts_undisturbed openers .recycle hreachable true).1 _ hstage).resolve_left nofun
  · exact ((hosts_undisturbed openers .recycle hreachable false).1 _ hstage').resolve_left nofun

/-- Before any host begins, sections of others can have taken any number of places. -/
theorem exists_reachable_packed (hosts : ι → Host) (policy : ReclaimPolicy) {n : Nat}
    (hn : n ≤ Heap.maxPlaces) :
    ∃ state, Reachable hosts policy state ∧ state.shared.heap.Packed n ∧
      ∀ host, state.stage host = .idle := by
  induction n with
  | zero => exact ⟨start policy, .start, Heap.packed_empty policy, fun _ => rfl⟩
  | succ n ih =>
    obtain ⟨state, hreachable, hpacked, hidle⟩ := ih (Nat.le_of_succ_le hn)
    have hroom : ¬state.shared.heap.Full := by
      rintro ⟨-, hfull⟩
      rw [hpacked.size_eq] at hfull
      omega
    obtain ⟨address, heap, hinsert⟩ := Heap.exists_insert_eq_ok hroom (.ofBytes [])
    have hsection : state.shared.update (Heap.Operation.createBytes []).update =
        some (.ok (.address address), .ofHeap heap) := by
      rw [hreachable.invariant.shared_eq, SharedHeap.update_operation,
        Heap.perform_of_insert rfl hinsert]
    exact ⟨_, hreachable.step (@Step.operate ι _ hosts _ (.createBytes []) _ _ nofun hsection),
      hpacked.of_inserted (Heap.inserted_of_insert hinsert), hidle⟩

/-- A host that alone returns its text is left without an outcome once others have taken all
places of a heap that retains. -/
theorem host_disturbed_once_exhausted :
    ∃ state, Reachable openers .retain state ∧
      state.stage true = .done (.error .exhausted) ∧
      ¬(openers true).RunsAlike (.error .exhausted) ∧
      ∃ activation heap,
        Activation.ofTexts (openers true).texts (.empty .retain) = .ok activation heap ∧
        Machine.invoke (openers true).program heap (openers true).limits activation =
          .ok (.ok [.ref ⟨⟨0, 0⟩, .integer .u8⟩]) := by
  obtain ⟨state, hreachable, hpacked, hidle⟩ :=
    exists_reachable_packed openers .retain (Nat.le_refl Heap.maxPlaces)
  have hfull : Heap.maxPlaces ≤ state.shared.heap.entries.size + (openers true).texts.length := by
    rw [hpacked.size_eq]
    exact Nat.le_add_right ..
  obtain ⟨heap, herror⟩ := Activation.ofTexts_exhausted hpacked.free_eq
    (Nat.le_of_eq hpacked.size_eq) hfull
  have hsection := SharedHeap.update_of_error herror
  rw [← hreachable.invariant.shared_eq] at hsection
  have hdone := @Function.update_self Bool (fun _ => Host.Stage) _ true (.done (.error .exhausted))
    state.stage
  refine ⟨_, hreachable.step (.setUp (hidle true) hsection), hdone, ?_, ?_⟩
  · intro halike
    obtain ⟨_, _, _, _, _, hresult⟩ := halike .retain
    cases hresult
  · exact ⟨_, _, rfl, congrArg Except.ok (Machine.run_eq_of_steps (n := 3) rfl)⟩

end Sharing

end TypedStack
