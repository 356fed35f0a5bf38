import TypedStack.Fixture.Schema
import TypedStack.Fixture.Error

/-!
# The order in which heap entries are made

An entry can be made once the entries it refers to are there. The order is found
by a depth-first walk along the references: the entries on the way to the one
being looked at stand on a stack with the references they still have to follow,
and an entry that is met again while it stands there lies on a cycle.
-/

namespace TypedStack

namespace Fixture

/-- The label of a value that is a reference. -/
def ValueSpec.label? : ValueSpec → Option String
  | ref label => some label
  | _ => none

/-- The labels that an entry refers to, in order. -/
def HeapEntry.references (entry : HeapEntry) : List String :=
  (entry.elements.getD []).filterMap ValueSpec.label?

/-- The first identifier that occurred before. -/
def firstRepeated (seen : List String) : List String → Option String
  | [] => none
  | id :: rest => if seen.contains id then some id else firstRepeated (id :: seen) rest

/-- The number of the entry with an identifier. -/
def indexOf? (entries : List HeapEntry) (id : String) : Option Nat :=
  entries.findIdx? (·.id == id)

/-- The labels that the entry of a number refers to. -/
def referencesAt (entries : List HeapEntry) (index : Nat) : List String :=
  (entries[index]?.map HeapEntry.references).getD []

/-- An entry on the way to the one being looked at, and the references that it
still has to follow. -/
abbrev Pending := Nat × List String

/-- Whether the walk has come to an entry. -/
def isVisited (work : List Pending) (order : List Nat) (index : Nat) : Bool :=
  order.contains index || (work.map (·.1)).contains index

/-- How many entries the walk has not come to. -/
def unvisited (count : Nat) (work : List Pending) (order : List Nat) : Nat :=
  (List.range count).countP fun index => !isVisited work order index

/-- How many references the entries on the way still have to follow, and how many
entries there are. -/
def workLeft (work : List Pending) : Nat :=
  work.foldr (fun pending total => pending.2.length + 1 + total) 0

theorem countP_lt_countP {p q : Nat → Bool} {numbers : List Nat}
    (himp : ∀ n ∈ numbers, p n = true → q n = true)
    (hstrict : ∃ n ∈ numbers, q n = true ∧ p n = false) :
    numbers.countP p < numbers.countP q := by
  induction numbers with
  | nil => simp at hstrict
  | cons first rest ih =>
    have hrest : ∀ n ∈ rest, p n = true → q n = true :=
      fun n hn => himp n (List.mem_cons_of_mem _ hn)
    have hle : rest.countP p ≤ rest.countP q := List.countP_mono_left hrest
    simp only [List.countP_cons]
    by_cases hfirst : q first = true ∧ p first = false
    · simp only [hfirst.1, hfirst.2]
      simp only [if_true, Bool.false_eq_true, if_false]
      omega
    · have hrestStrict : ∃ n ∈ rest, q n = true ∧ p n = false := by
        obtain ⟨n, hn, hq, hp⟩ := hstrict
        rcases List.mem_cons.1 hn with rfl | hn
        · exact absurd ⟨hq, hp⟩ hfirst
        · exact ⟨n, hn, hq, hp⟩
      have hlt := ih hrest hrestStrict
      have hstep : (if p first = true then 1 else 0) ≤ (if q first = true then 1 else 0) := by
        by_cases hp : p first = true
        · simp [hp, himp first (List.mem_cons_self ..) hp]
        · simp [hp]
      omega

/-- Visiting a further entry leaves fewer unvisited. -/
theorem unvisited_lt {count index : Nat} {labels : List String} {work : List Pending}
    {order : List Nat} (hindex : index < count) (hnew : isVisited work order index = false) :
    unvisited count ((index, labels) :: work) order < unvisited count work order := by
  apply countP_lt_countP
  · intro n _ hn
    simp only [isVisited, List.map_cons, List.contains_cons, Bool.not_eq_true',
      Bool.or_eq_false_iff] at hn ⊢
    exact ⟨hn.1, hn.2.2⟩
  · refine ⟨index, List.mem_range.2 hindex, by simp [hnew], ?_⟩
    simp [isVisited]

/-- Following a reference visits the same entries. -/
theorem unvisited_follow (count current : Nat) (label : String) (labels : List String)
    (work : List Pending) (order : List Nat) :
    unvisited count ((current, labels) :: work) order =
      unvisited count ((current, label :: labels) :: work) order := rfl

/-- Finishing an entry visits the same entries. -/
theorem unvisited_finish (count current : Nat) (work : List Pending) (order : List Nat) :
    unvisited count work (current :: order) =
      unvisited count ((current, []) :: work) order := by
  have h : ∀ n, isVisited work (current :: order) n =
      isVisited ((current, []) :: work) order n := by
    intro n
    simp only [isVisited, List.map_cons, List.contains_cons]
    cases n == current <;> simp
  simp only [unvisited, h]

theorem lt_length_of_indexOf? {entries : List HeapEntry} {id : String} {index : Nat}
    (h : indexOf? entries id = some index) : index < entries.length := by
  obtain ⟨hindex, _⟩ := List.findIdx?_eq_some_iff_getElem.1 h
  exact hindex

/-- Going on to an entry that was not visited leaves fewer of them. -/
theorem unvisited_visit {entries : List HeapEntry} {label : String} {target current : Nat}
    {work : List Pending} {order : List Nat} (hindex : indexOf? entries label = some target)
    (hdone : ¬order.contains target) (hway : ¬(current :: work.map (·.1)).contains target)
    (labels : List String) :
    unvisited entries.length
        ((target, referencesAt entries target) :: (current, labels) :: work) order <
      unvisited entries.length ((current, label :: labels) :: work) order := by
  rw [← unvisited_follow _ _ label]
  refine unvisited_lt (lt_length_of_indexOf? hindex) ?_
  simp only [isVisited, List.map_cons, Bool.or_eq_false_iff]
  exact ⟨by simpa using hdone, by simpa using hway⟩

/-- Walk on until no entry is on the way. Entries are added to the front of
`order` when all they refer to is in it. -/
def walk (entries : List HeapEntry) (work : List Pending) (order : List Nat) :
    Except Error (List Nat) :=
  match work with
  | [] => .ok order
  | (current, []) :: rest => walk entries rest (current :: order)
  | (current, label :: labels) :: rest =>
    match hindex : indexOf? entries label with
    | none => .error (.unknownHeapId label)
    | some target =>
      if hdone : order.contains target then walk entries ((current, labels) :: rest) order
      else if hway : (current :: rest.map (·.1)).contains target then .error (.heapCycle label)
      else
        have := unvisited_visit hindex hdone hway labels
        walk entries ((target, referencesAt entries target) :: (current, labels) :: rest) order
termination_by (unvisited entries.length work order, workLeft work)
decreasing_by
  · rw [unvisited_finish]
    exact Prod.Lex.right _ (by simp [workLeft])
  · rw [unvisited_follow _ _ label]
    exact Prod.Lex.right _ (by simp [workLeft])
  · exact Prod.Lex.left _ _ this

/-- Walk from every entry in turn that was not visited before. -/
def walkAll (entries : List HeapEntry) : List Nat → List Nat → Except Error (List Nat)
  | [], order => .ok order
  | root :: roots, order =>
    if order.contains root then walkAll entries roots order
    else
      match walk entries [(root, referencesAt entries root)] order with
      | .error e => .error e
      | .ok order => walkAll entries roots order

/-- The numbers of all entries, each behind those of the entries it refers to. -/
def creationOrder (entries : List HeapEntry) : Except Error (List Nat) :=
  match firstRepeated [] (entries.map (·.id)) with
  | some id => .error (.duplicateHeapId id)
  | none => (walkAll entries (List.range entries.length) []).map List.reverse

end Fixture

end TypedStack
