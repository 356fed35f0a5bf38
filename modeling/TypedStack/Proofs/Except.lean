import Mathlib.Data.List.Forall2

/-!
# Computations that can fail

A computation made of others succeeds exactly if those it needs do, and fails
with the first that does. Proofs use these facts to take a chain of computations
apart without opening its definition.
-/

namespace TypedStack

variable {ε α β : Type}

theorem map_eq_ok {result : Except ε α} {f : α → β} {b : β} :
    result.map f = .ok b ↔ ∃ a, f a = b ∧ result = .ok a := by
  cases result <;> simp [Except.map]

theorem map_eq_error {result : Except ε α} {f : α → β} {e : ε} :
    result.map f = .error e ↔ result = .error e := by
  cases result <;> simp [Except.map]

theorem mapError_eq_ok {ε' : Type} {result : Except ε α} {f : ε → ε'} {a : α} :
    result.mapError f = .ok a ↔ result = .ok a := by
  cases result with
  | error e => constructor <;> intro h <;> cases h
  | ok found => constructor <;> intro h <;> cases h <;> rfl

theorem bind_eq_ok {result : Except ε α} {next : α → Except ε β} {b : β} :
    (result >>= next) = .ok b ↔ ∃ a, result = .ok a ∧ next a = .ok b := by
  cases result <;> simp [bind, Except.bind]

theorem bind_eq_error {result : Except ε α} {next : α → Except ε β} {e : ε} :
    (result >>= next) = .error e ↔ result = .error e ∨ ∃ a, result = .ok a ∧ next a = .error e := by
  cases result <;> simp [bind, Except.bind]

theorem bind_eq_of_eq_ok
    {result : Except ε α} {next : α → Except ε β} {a : α} (h : result = .ok a) :
    (result >>= next) = next a := by
  rw [h]
  rfl

theorem mapM_eq_ok {f : α → Except ε β} {as : List α} {bs : List β} :
    as.mapM f = .ok bs ↔ List.Forall₂ (fun a b => f a = .ok b) as bs := by
  induction as generalizing bs with
  | nil =>
    rw [List.mapM_nil, List.forall₂_nil_left_iff]
    constructor
    · intro h
      exact (Except.ok.inj h).symm
    · rintro rfl
      rfl
  | cons a as ih =>
    rw [List.mapM_cons, bind_eq_ok]
    constructor
    · rintro ⟨b, hb, hrest⟩
      obtain ⟨bs, hbs, hcons⟩ := bind_eq_ok.1 hrest
      obtain rfl := Except.ok.inj hcons
      exact .cons hb (ih.1 hbs)
    · intro h
      obtain ⟨b, bs, hb, hbs, rfl⟩ := List.forall₂_cons_left_iff.1 h
      exact ⟨b, hb, bind_eq_ok.2 ⟨bs, ih.2 hbs, rfl⟩⟩

/-- A failure comes from one of the elements. -/
theorem exists_of_mapM_eq_error {f : α → Except ε β} {as : List α} {e : ε}
    (h : as.mapM f = .error e) : ∃ a ∈ as, f a = .error e := by
  induction as with
  | nil => cases h
  | cons a as ih =>
    rw [List.mapM_cons, bind_eq_error] at h
    rcases h with hfirst | ⟨b, -, hrest⟩
    · exact ⟨a, List.mem_cons_self, hfirst⟩
    · rcases bind_eq_error.1 hrest with hlater | ⟨bs, -, hdone⟩
      · obtain ⟨a', hmem, hfailed⟩ := ih hlater
        exact ⟨a', List.mem_cons_of_mem _ hmem, hfailed⟩
      · cases hdone

end TypedStack
