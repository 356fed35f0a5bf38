import Mathlib.Data.List.GetD
import Mathlib.Data.List.Nodup
import TypedStack.Proofs.Heap.Freshness

/-!
# Scripts

A script works on a heap and names objects by ordinals: the first object that it
creates is number zero, and so on. What it is told has every address replaced by the
ordinal of the creation. The same commands can be carried out on a catalogue, which
lists what there is to know of the objects and knows nothing of places.
-/

namespace TypedStack

namespace Heap

namespace Script

/-! ## Commands and reports -/

/-- A value in which a reference names its object by the ordinal. -/
inductive Term where
  | integer (kind : IntegerKind) (bits : BitVec kind.bits)
  | float (format : FloatFormat) (bits : FloatBits format)
  | bool (b : Bool)
  | ref (ordinal : Nat) (element : Kind)
  deriving DecidableEq

namespace Term

/-- The kind of a term. -/
def kind : Term → Kind
  | integer kind _ => .integer kind
  | float format _ => .float format
  | bool _ => .bool
  | ref _ _ => .ref

/-- Whether a term names none but the first `count` objects. -/
def isKnown (count : Nat) : Term → Bool
  | ref ordinal _ => ordinal < count
  | integer _ _ | float _ _ | bool _ => true

/-- The value of a term, given the addresses in the order of creation. -/
def value (table : List Address) : Term → Value
  | integer kind bits => .integer kind bits
  | float format bits => .float format bits
  | bool b => .bool b
  | ref ordinal element => .ref ⟨table.getD ordinal ⟨0, 0⟩, element⟩

/-- The value with its address replaced by the ordinal of the creation. -/
def ofValue (table : List Address) : Value → Term
  | .integer kind bits => integer kind bits
  | .float format bits => float format bits
  | .bool b => bool b
  | .ref reference => ref (table.idxOf reference.address) reference.element

end Term

/-- What there is to know of an object. -/
structure Record where
  element : Kind
  payload : List Term
  deriving DecidableEq

/-- What a script does in one step. -/
inductive Command where
  | create (element : Kind) (payload : List Term)
  | createBytes (bytes : List UInt8)
  | release (ordinal : Nat)
  | object (ordinal : Nat)
  | reference (ordinal : Nat)
  | deref (ordinal index : Nat)
  | length

/-- Whether a command names none but the first `count` objects. -/
def Command.isKnown (count : Nat) : Command → Bool
  | create _ payload => payload.all (·.isKnown count)
  | createBytes _ | length => true
  | release ordinal | object ordinal | reference ordinal | deref ordinal _ => ordinal < count

/-- Why a command failed. -/
inductive Fault where
  | dangling (ordinal : Nat)
  | outOfRange (ordinal index length : Nat)
  | elementKind (mismatch : ElementMismatch)
  | exhausted
  deriving DecidableEq

/-- What a script is told. -/
inductive Report where
  | unknown
  | created (ordinal : Nat)
  | object (record : Record)
  | value (term : Term)
  | length (n : Nat)
  | failed (fault : Fault)
  deriving DecidableEq

/-- Whether an object was created. -/
def Report.isCreated : Report → Bool
  | created _ => true
  | unknown | object _ | value _ | length _ | failed _ => false

/-- What a script is told in answer to its commands. -/
def reports {σ : Type} (answer : σ → Command → Report × σ) (state : σ) :
    List Command → List Report
  | [] => []
  | command :: rest => (answer state command).1 :: reports answer (answer state command).2 rest

/-! ## Scripts on a heap -/

/-- The object with every address replaced by the ordinal of the creation. -/
def Record.ofObject (table : List Address) (object : HeapObject) : Record :=
  ⟨object.element, object.payload.map (Term.ofValue table)⟩

/-- The error with its address replaced by the ordinal of the creation. -/
def Fault.ofError (table : List Address) : HeapError → Fault
  | .danglingReference address => dangling (table.idxOf address)
  | .indexOutOfRange address index length => outOfRange (table.idxOf address) index length
  | .elementKind mismatch => elementKind mismatch
  | .exhausted => exhausted

namespace Report

/-- The report on something that was looked up. -/
def ofResult {α : Type} (table : List Address) (found : α → Report) :
    Except HeapError α → Report
  | .ok a => found a
  | .error e => failed (.ofError table e)

/-- The report on something that was put in or taken out. -/
def ofAnswer (table : List Address) : Answer → Report
  | .address address => created (table.idxOf address)
  | .object found => object (.ofObject table found)

end Report

end Script

namespace Session

open Script

/-- The addresses that were returned, in the order of creation. -/
def table (session : Session) : List Address :=
  session.addresses.reverse

/-- The address of the object with an ordinal. -/
def address (session : Session) (ordinal : Nat) : Address :=
  session.table.getD ordinal ⟨0, 0⟩

/-- Carry out an operation and report on it. -/
def update (session : Session) (operation : Operation) : Report × Session :=
  let after := session.perform operation
  (.ofResult after.table (.ofAnswer after.table) (operation.perform session.heap).1, after)

/-- Carry out a command whose ordinals are replaced by addresses. -/
def carryOut (session : Session) : Command → Report × Session
  | .create element payload =>
    session.update (.create element (payload.map (Term.value session.table)))
  | .createBytes bytes => session.update (.createBytes bytes)
  | .release ordinal => session.update (.release (session.address ordinal))
  | .object ordinal =>
    let found := fun object => .object (.ofObject session.table object)
    (.ofResult session.table found (session.heap.object (session.address ordinal)), session)
  | .reference ordinal =>
    let found := fun value => .value (.ofValue session.table value)
    (.ofResult session.table found (session.heap.reference (session.address ordinal)), session)
  | .deref ordinal index =>
    let found := fun value => .value (.ofValue session.table value)
    (.ofResult session.table found (session.heap.deref (session.address ordinal) index), session)
  | .length => (.length session.heap.live, session)

/-- Answer a command, which does nothing if it names an object not created yet. -/
def answer (session : Session) (command : Command) : Report × Session :=
  if command.isKnown session.table.length then session.carryOut command else (.unknown, session)

end Session

namespace Script

/-- What a script on a heap without objects is told. -/
def heapReports (policy : ReclaimPolicy) (script : List Command) : List Report :=
  reports Session.answer (.start policy) script

/-! ## Scripts on a catalogue -/

/-- The element at an index: the length at zero, then the payload. -/
def Record.get? (record : Record) : Nat → Option Term
  | 0 => some (.integer .usize (BitVec.ofInt _ record.payload.length))
  | index + 1 => record.payload[index]?

/-- The first term whose kind is not `element`, with its position. -/
def mismatch? (element : Kind) (payload : List Term) : Option ElementMismatch :=
  (payload.zipIdx.find? fun entry => entry.1.kind != element).map fun entry =>
    ⟨entry.2, element, entry.1.kind⟩

/-- The objects of a script in the order of creation, less those that were
released. -/
abbrev Catalogue := List (Option Record)

namespace Catalogue

/-- What there is to know of the object with an ordinal. -/
def record? (catalogue : Catalogue) (ordinal : Nat) : Option Record :=
  catalogue.getD ordinal none

/-- The report on an object that is looked up. -/
def look (catalogue : Catalogue) (ordinal : Nat) (found : Record → Report) : Report :=
  match catalogue.record? ordinal with
  | some record => found record
  | none => .failed (.dangling ordinal)

/-- The report on an element of an object. -/
def element (ordinal index : Nat) (record : Record) : Report :=
  match record.get? index with
  | some term => .value term
  | none => .failed (.outOfRange ordinal index record.payload.length)

/-- Enter an object. -/
def enter (catalogue : Catalogue) (record : Record) : Report × Catalogue :=
  (.created catalogue.length, catalogue ++ [some record])

/-- Carry out a command. -/
def carryOut (catalogue : Catalogue) : Command → Report × Catalogue
  | .create element payload =>
    match mismatch? element payload with
    | some mismatch => (.failed (.elementKind mismatch), catalogue)
    | none => catalogue.enter ⟨element, payload⟩
  | .createBytes bytes =>
    catalogue.enter ⟨.integer .u8, bytes.map fun byte => .integer .u8 byte.toBitVec⟩
  | .release ordinal => (catalogue.look ordinal .object, catalogue.set ordinal none)
  | .object ordinal => (catalogue.look ordinal .object, catalogue)
  | .reference ordinal =>
    (catalogue.look ordinal fun record => .value (.ref ordinal record.element), catalogue)
  | .deref ordinal index => (catalogue.look ordinal (element ordinal index), catalogue)
  | .length => (.length (catalogue.countP Option.isSome), catalogue)

/-- Answer a command, which does nothing if it names an object not created yet. -/
def answer (catalogue : Catalogue) (command : Command) : Report × Catalogue :=
  if command.isKnown catalogue.length then catalogue.carryOut command else (.unknown, catalogue)

theorem record?_set_self (catalogue : Catalogue) (ordinal : Nat) :
    record? (catalogue.set ordinal none) ordinal = none := by
  rw [record?, List.getD_eq_getElem?_getD, List.getElem?_set_self']
  cases catalogue[ordinal]? <;> rfl

theorem record?_set_ne (catalogue : Catalogue) {i ordinal : Nat} (h : ordinal ≠ i) :
    record? (catalogue.set ordinal none) i = catalogue.record? i := by
  rw [record?, record?, List.getD_eq_getElem?_getD, List.getD_eq_getElem?_getD,
    List.getElem?_set_ne h]

theorem set_none_eq_self
    {catalogue : Catalogue} {ordinal : Nat} (h : catalogue.record? ordinal = none) :
    catalogue.set ordinal none = catalogue := by
  induction catalogue generalizing ordinal with
  | nil => rfl
  | cons first rest ih =>
    cases ordinal with
    | zero =>
      have hfirst : first = none := h
      rw [hfirst]
      rfl
    | succ ordinal => rw [List.set_cons_succ, ih h]

/-- An object that is taken out was counted. -/
theorem countP_set_none
    {catalogue : Catalogue} {ordinal : Nat} {record : Record}
    (h : catalogue.record? ordinal = some record) :
    (catalogue.set ordinal none).countP Option.isSome + 1 = catalogue.countP Option.isSome := by
  induction catalogue generalizing ordinal with
  | nil => cases h
  | cons first rest ih =>
    cases ordinal with
    | zero =>
      have hfirst : first = some record := h
      simp [hfirst]
    | succ ordinal =>
      rw [List.set_cons_succ, List.countP_cons, List.countP_cons, ← ih h]
      omega

end Catalogue

/-! ## Terms and values -/

section

variable {table rest : List Address} {term : Term} {record : Record} {object : HeapObject}

theorem idxOf_getD (hnodup : table.Nodup) {ordinal : Nat} (h : ordinal < table.length) :
    table.idxOf (table.getD ordinal ⟨0, 0⟩) = ordinal := by
  rw [List.getD_eq_getElem _ _ h]
  exact hnodup.idxOf_getElem ordinal h

theorem Term.ofValue_value (hnodup : table.Nodup) (hknown : term.isKnown table.length) :
    ofValue table (term.value table) = term := by
  cases term with
  | ref ordinal element =>
    have hordinal : ordinal < table.length := of_decide_eq_true hknown
    simp only [value, ofValue, idxOf_getD hnodup hordinal]
  | _ => rfl

/-- The value of a term does not change with later creations. -/
theorem Term.value_append (hknown : term.isKnown table.length) :
    term.value (table ++ rest) = term.value table := by
  cases term with
  | ref ordinal element =>
    have hordinal : ordinal < table.length := of_decide_eq_true hknown
    simp only [value, List.getD_append _ _ _ _ hordinal]
  | _ => rfl

theorem Term.isKnown_of_le {m n : Nat} (hmn : m ≤ n) (h : term.isKnown m) : term.isKnown n := by
  cases term with
  | ref ordinal element =>
    have hordinal : ordinal < m := of_decide_eq_true h
    exact decide_eq_true (Nat.lt_of_lt_of_le hordinal hmn)
  | _ => rfl

theorem Term.kind_value (table : List Address) (term : Term) :
    (term.value table).kind = term.kind := by
  cases term <;> rfl

theorem mismatch?_map_value (table : List Address) (element : Kind) (payload : List Term) :
    HeapObject.mismatch? element (payload.map (Term.value table)) =
      mismatch? element payload := by
  have hkinds : (fun entry : Value × Nat => entry.1.kind != element) ∘
      Prod.map (Term.value table) id = fun entry => entry.1.kind != element := by
    funext entry
    simp [Term.kind_value]
  rw [HeapObject.mismatch?, mismatch?, List.zipIdx_map, List.find?_map, hkinds, Option.map_map]
  congr 1
  funext entry
  simp [Term.kind_value]

/-- An object of which the record is all there is to know. -/
structure Represents (table : List Address) (record : Record) (object : HeapObject) : Prop where
  element : object.element = record.element
  payload : object.payload = record.payload.map (Term.value table)
  known : ∀ term ∈ record.payload, term.isKnown table.length

theorem Represents.ofObject (h : Represents table record object) (hnodup : table.Nodup) :
    Record.ofObject table object = record := by
  have hpayload : record.payload.map (Term.ofValue table ∘ Term.value table) =
      record.payload.map id :=
    List.map_congr_left fun term hterm => Term.ofValue_value hnodup (h.known term hterm)
  rw [Record.ofObject, h.element, h.payload, List.map_map, hpayload, List.map_id]

theorem Represents.append (h : Represents table record object) (rest : List Address) :
    Represents (table ++ rest) record object where
  element := h.element
  payload := by
    rw [h.payload]
    exact List.map_congr_left fun term hterm => (Term.value_append (h.known term hterm)).symm
  known := fun term hterm => by
    have hle : table.length ≤ (table ++ rest).length := by simp
    exact Term.isKnown_of_le hle (h.known term hterm)

theorem rel_append {record? : Option Record} {object? : Option HeapObject}
    (h : Option.Rel (Represents table) record? object?) (rest : List Address) :
    Option.Rel (Represents (table ++ rest)) record? object? := by
  cases h with
  | some hrepresents => exact .some (hrepresents.append rest)
  | none => exact .none

theorem Record.get?_ofObject (table : List Address) (object : HeapObject) (index : Nat) :
    (Record.ofObject table object).get? index =
      (object.get? index).map (Term.ofValue table) := by
  cases index with
  | zero =>
    simp only [Record.get?, Record.ofObject, List.length_map]
    rfl
  | succ index => simp only [HeapObject.get?, Record.get?, Record.ofObject, List.getElem?_map]

end

end Script

end Heap

end TypedStack
