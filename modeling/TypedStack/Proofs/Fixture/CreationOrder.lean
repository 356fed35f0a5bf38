import Mathlib.Data.List.Duplicate
import Mathlib.Logic.Relation
import TypedStack.Fixture.CreationOrder

/-!
# Creation orders

The walk along the references finds an order exactly if there is one: the order
that it gives lists every entry once and behind all that it refers to, and an
error that it gives names a fault of the entries, each of which rules an order
out.

The invariant of the walk is in two parts. The entries in the order are
`Ordered`, and the entries on the way are `Underway`: each refers, through others
on the way, to the one being looked at, and will have followed all its references
once the entries above it are in the order.
-/

namespace TypedStack

namespace Fixture

open Relation

/-! ## The references between entries -/

/-- The entry of one number refers to that of another. -/
def Refers (entries : List HeapEntry) (source target : Nat) : Prop :=
  ∃ entry, entries[target]? = some entry ∧ entry.id ∈ referencesAt entries source

/-- Following references from an entry leads back to it. -/
def OnCycle (entries : List HeapEntry) (index : Nat) : Prop :=
  TransGen (Refers entries) index index

/-- What is wrong with entries that cannot be put in order. -/
inductive Fault (entries : List HeapEntry) : Error → Prop
  | duplicate {id : String} (repeated : List.Duplicate id (entries.map (·.id))) :
    Fault entries (.duplicateHeapId id)
  | unknown {entry : HeapEntry} {label : String} (entry_mem : entry ∈ entries)
      (referenced : label ∈ entry.references) (undeclared : label ∉ entries.map (·.id)) :
    Fault entries (.unknownHeapId label)
  | cycle {index : Nat} {entry : HeapEntry} (entry_eq : entries[index]? = some entry)
      (on_cycle : OnCycle entries index) :
    Fault entries (.heapCycle entry.id)

/-- What entries need to be made one after another. -/
structure Orderable (entries : List HeapEntry) : Prop where
  distinct : (entries.map (·.id)).Nodup
  declared : ∀ entry ∈ entries, ∀ label ∈ entry.references, label ∈ entries.map (·.id)
  acyclic : ∀ index, ¬OnCycle entries index

variable {entries : List HeapEntry}

theorem Orderable.not_fault (h : Orderable entries) {error : Error} : ¬Fault entries error := by
  rintro (repeated | ⟨entry_mem, referenced, undeclared⟩ | ⟨-, on_cycle⟩)
  · exact repeated.not_nodup h.distinct
  · exact undeclared (h.declared _ entry_mem _ referenced)
  · exact h.acyclic _ on_cycle

theorem exists_entry_of_indexOf? {label : String} {index : Nat}
    (h : indexOf? entries label = some index) :
    ∃ entry, entries[index]? = some entry ∧ entry.id = label := by
  obtain ⟨hindex, hid, -⟩ := List.findIdx?_eq_some_iff_getElem.1 h
  exact ⟨entries[index], List.getElem?_eq_getElem hindex, by simpa using hid⟩

theorem indexOf?_eq_none {label : String} :
    indexOf? entries label = none ↔ label ∉ entries.map (·.id) := by
  simp [indexOf?, List.findIdx?_eq_none_iff]

theorem mem_referencesAt {index : Nat} {label : String} :
    label ∈ referencesAt entries index ↔
      ∃ entry, entries[index]? = some entry ∧ label ∈ entry.references := by
  cases h : entries[index]? <;> simp [referencesAt, h]

theorem Refers.of_indexOf? {source target : Nat} {label : String}
    (hlabel : label ∈ referencesAt entries source)
    (hindex : indexOf? entries label = some target) : Refers entries source target := by
  obtain ⟨entry, hentry, rfl⟩ := exists_entry_of_indexOf? hindex
  exact ⟨entry, hentry, hlabel⟩

theorem Refers.lt_length {source target : Nat} (h : Refers entries source target) :
    source < entries.length := by
  obtain ⟨_, -, hlabel⟩ := h
  obtain ⟨_, hsource, -⟩ := mem_referencesAt.1 hlabel
  exact (List.getElem?_eq_some_iff.1 hsource).1

/-- Only one entry has a given identifier. -/
theorem indexOf?_id (hids : (entries.map (·.id)).Nodup) {index : Nat} {entry : HeapEntry}
    (hentry : entries[index]? = some entry) : indexOf? entries entry.id = some index := by
  have hmem : entry.id ∈ entries.map (·.id) :=
    List.mem_map_of_mem (List.mem_of_getElem? hentry)
  obtain ⟨found, hfound⟩ : ∃ found, indexOf? entries entry.id = some found := by
    rw [← Option.ne_none_iff_exists', Ne, indexOf?_eq_none, not_not]
    exact hmem
  obtain ⟨other, hother, hid⟩ := exists_entry_of_indexOf? hfound
  have hsame : found = index := by
    apply (List.getElem?_inj (by simpa using lt_length_of_indexOf? hfound) hids).1
    simp [hother, hentry, hid]
  rw [hfound, hsame]

/-! ## Repeated identifiers -/

theorem firstRepeated_eq_some {seen ids : List String} {id : String}
    (h : firstRepeated seen ids = some id) : (id ∈ seen ∧ id ∈ ids) ∨ List.Duplicate id ids := by
  induction ids generalizing seen with
  | nil => simp [firstRepeated] at h
  | cons first rest ih =>
    rw [firstRepeated] at h
    split at h
    · next hseen =>
      cases h
      exact .inl ⟨by simpa using hseen, List.mem_cons_self⟩
    · obtain ⟨hmem, hrest⟩ | hrest := ih h
      · rcases List.mem_cons.1 hmem with rfl | hmem
        · exact .inr (List.duplicate_cons_self_iff.2 hrest)
        · exact .inl ⟨hmem, List.mem_cons_of_mem _ hrest⟩
      · exact .inr (hrest.duplicate_cons first)

theorem nodup_of_firstRepeated {seen ids : List String}
    (h : firstRepeated seen ids = none) : ids.Nodup ∧ ∀ id ∈ ids, id ∉ seen := by
  induction ids generalizing seen with
  | nil => simp
  | cons first rest ih =>
    rw [firstRepeated] at h
    split at h
    · cases h
    · next hseen =>
      obtain ⟨hnodup, hrest⟩ := ih h
      have hfirst : first ∉ rest := fun hmem => hrest first hmem List.mem_cons_self
      refine ⟨List.nodup_cons.2 ⟨hfirst, hnodup⟩, List.forall_mem_cons.2 ⟨by simpa using hseen, ?_⟩⟩
      exact fun id hid hmem => hrest id hid (List.mem_cons_of_mem _ hmem)

/-! ## The entries in the order -/

/-- The labels are those of entries in the order. -/
def Resolved (entries : List HeapEntry) (order : List Nat) (labels : List String) : Prop :=
  ∀ label ∈ labels, ∃ target ∈ order, indexOf? entries label = some target

/-- The order lists entries, the last first, each once and with all it refers to
behind it. -/
inductive Ordered (entries : List HeapEntry) : List Nat → Prop
  | nil : Ordered entries []
  | cons {index : Nat} {order : List Nat} (new : index ∉ order)
      (bound : index < entries.length)
      (resolved : Resolved entries order (referencesAt entries index))
      (ordered : Ordered entries order) : Ordered entries (index :: order)

theorem Resolved.mono {order order' : List Nat} {labels : List String}
    (h : Resolved entries order labels) (hsub : order ⊆ order') :
    Resolved entries order' labels := by
  intro label hlabel
  obtain ⟨target, hmem, htarget⟩ := h label hlabel
  exact ⟨target, hsub hmem, htarget⟩

theorem Ordered.nodup {order : List Nat} (h : Ordered entries order) : order.Nodup := by
  induction h with
  | nil => exact List.nodup_nil
  | cons new _ _ _ ih => exact List.nodup_cons.2 ⟨new, ih⟩

theorem Ordered.lt_length {order : List Nat} (h : Ordered entries order) {index : Nat}
    (hmem : index ∈ order) : index < entries.length := by
  induction h with
  | nil => cases hmem
  | cons _ bound _ _ ih =>
    rcases List.mem_cons.1 hmem with rfl | hmem
    · exact bound
    · exact ih hmem

theorem Ordered.resolved {order : List Nat} (h : Ordered entries order) {index : Nat}
    (hmem : index ∈ order) : Resolved entries order (referencesAt entries index) := by
  induction h with
  | nil => cases hmem
  | cons _ _ resolved _ ih =>
    rcases List.mem_cons.1 hmem with rfl | hmem
    · exact resolved.mono (List.subset_cons_self _ _)
    · exact (ih hmem).mono (List.subset_cons_self _ _)

/-- An order of all entries is a permutation of their numbers. -/
theorem Ordered.perm_range {order : List Nat} (h : Ordered entries order)
    (hall : ∀ index < entries.length, index ∈ order) :
    order.Perm (List.range entries.length) := by
  apply (List.perm_ext_iff_of_nodup h.nodup List.nodup_range).2
  intro index
  rw [List.mem_range]
  exact ⟨h.lt_length, hall index⟩

theorem Resolved.mem_of_refers {order : List Nat} {source target : Nat}
    (hids : (entries.map (·.id)).Nodup)
    (h : Resolved entries order (referencesAt entries source))
    (hrefers : Refers entries source target) : target ∈ order := by
  obtain ⟨entry, hentry, hlabel⟩ := hrefers
  obtain ⟨found, hmem, hfound⟩ := h _ hlabel
  rw [indexOf?_id hids hentry] at hfound
  cases hfound
  exact hmem

/-- Read from its first entry on, an order has an entry behind all it refers to. -/
theorem Ordered.idxOf_lt {order : List Nat} (h : Ordered entries order)
    (hids : (entries.map (·.id)).Nodup) {source target : Nat} (hsource : source ∈ order)
    (hrefers : Refers entries source target) :
    target ∈ order ∧ order.reverse.idxOf target < order.reverse.idxOf source := by
  induction h with
  | nil => cases hsource
  | @cons index order new _ resolved _ ih =>
    rw [List.reverse_cons]
    rcases List.mem_cons.1 hsource with rfl | hsource
    · have htarget := resolved.mem_of_refers hids hrefers
      have hbefore : order.reverse.idxOf target < order.reverse.length :=
        List.idxOf_lt_length_iff.2 (List.mem_reverse.2 htarget)
      refine ⟨List.mem_cons_of_mem _ htarget, ?_⟩
      rw [List.idxOf_append_of_mem (List.mem_reverse.2 htarget),
        List.idxOf_append_of_notMem (by simpa using new)]
      omega
    · obtain ⟨htarget, hlt⟩ := ih hsource
      refine ⟨List.mem_cons_of_mem _ htarget, ?_⟩
      rwa [List.idxOf_append_of_mem (List.mem_reverse.2 htarget),
        List.idxOf_append_of_mem (List.mem_reverse.2 hsource)]

/-! ## The entries on the way -/

/-- An entry has followed its references up to some last ones. -/
def Followed (entries : List HeapEntry) (order : List Nat) (pending : Pending) : Prop :=
  ∃ labels, referencesAt entries pending.1 = labels ++ pending.2 ∧ Resolved entries order labels

/-- What is known of the entries on the way. For an entry on the way the entries
above it count as ordered. -/
inductive Underway (entries : List HeapEntry) : List Nat → List Pending → Prop
  | nil {order : List Nat} : Underway entries order []
  | cons {order : List Nat} {pending : Pending} {rest : List Pending}
      (new : pending.1 ∉ order) (bound : pending.1 < entries.length)
      (followed : Followed entries order pending)
      (leads : ∀ below ∈ rest, TransGen (Refers entries) below.1 pending.1)
      (underway : Underway entries (pending.1 :: order) rest) :
    Underway entries order (pending :: rest)

theorem followed_references (order : List Nat) (index : Nat) :
    Followed entries order (index, referencesAt entries index) :=
  ⟨[], rfl, fun _ h => absurd h List.not_mem_nil⟩

theorem Followed.mono {order order' : List Nat} {pending : Pending}
    (h : Followed entries order pending) (hsub : order ⊆ order') :
    Followed entries order' pending := by
  obtain ⟨labels, heq, hresolved⟩ := h
  exact ⟨labels, heq, hresolved.mono hsub⟩

theorem Followed.mem_references {order : List Nat} {index : Nat} {label : String}
    {labels : List String} (h : Followed entries order (index, label :: labels)) :
    label ∈ referencesAt entries index := by
  obtain ⟨before, heq, -⟩ := h
  simp [heq]

theorem Followed.resolved {order : List Nat} {index : Nat}
    (h : Followed entries order (index, [])) :
    Resolved entries order (referencesAt entries index) := by
  obtain ⟨labels, heq, hresolved⟩ := h
  rwa [heq, List.append_nil]

/-- Following a reference to an entry in the order. -/
theorem Followed.follow {order : List Nat} {index target : Nat} {label : String}
    {labels : List String} (h : Followed entries order (index, label :: labels))
    (hindex : indexOf? entries label = some target) (hmem : target ∈ order) :
    Followed entries order (index, labels) := by
  obtain ⟨before, heq, hresolved⟩ := h
  refine ⟨before ++ [label], by simpa using heq, ?_⟩
  intro other hother
  rcases List.mem_append.1 hother with hother | hother
  · exact hresolved other hother
  · rw [List.mem_singleton.1 hother]
    exact ⟨target, hmem, hindex⟩

theorem Underway.mono {order order' : List Nat} {work : List Pending}
    (h : Underway entries order work) (hsub : order ⊆ order')
    (hnew : ∀ pending ∈ work, pending.1 ∈ order' → pending.1 ∈ order) :
    Underway entries order' work := by
  induction h generalizing order' with
  | nil => exact .nil
  | @cons order pending rest new bound followed leads _ ih =>
    obtain ⟨hfirst, hrest⟩ := List.forall_mem_cons.1 hnew
    refine .cons (fun hmem => new (hfirst hmem)) bound (followed.mono hsub) leads ?_
    refine ih (List.cons_subset_cons _ hsub) ?_
    intro below hbelow hmem
    rcases List.mem_cons.1 hmem with heq | hmem
    · exact heq ▸ List.mem_cons_self
    · exact List.mem_cons_of_mem _ (hrest below hbelow hmem)

theorem Underway.follow {order : List Nat} {current target : Nat} {label : String}
    {labels : List String} {rest : List Pending}
    (h : Underway entries order ((current, label :: labels) :: rest))
    (hindex : indexOf? entries label = some target) (hmem : target ∈ order) :
    Underway entries order ((current, labels) :: rest) := by
  cases h with
  | cons new bound followed leads hrest =>
    exact .cons new bound (followed.follow hindex hmem) leads hrest

/-- Going on to an entry that is neither in the order nor on the way. -/
theorem Underway.visit {order : List Nat} {current target : Nat} {label : String}
    {labels : List String} {rest : List Pending}
    (h : Underway entries order ((current, label :: labels) :: rest))
    (hindex : indexOf? entries label = some target) (hdone : target ∉ order)
    (hway : target ∉ current :: rest.map (·.1)) :
    Underway entries order
      ((target, referencesAt entries target) :: (current, labels) :: rest) := by
  cases h with
  | cons new bound followed leads hrest =>
    have hrefers : Refers entries current target := .of_indexOf? followed.mem_references hindex
    obtain ⟨hcurrent, hbelow⟩ := not_or.1 (mt List.mem_cons.2 hway)
    have hgrown : Followed entries (target :: order) (current, label :: labels) :=
      followed.mono (List.subset_cons_self _ _)
    refine .cons hdone (lt_length_of_indexOf? hindex) (followed_references _ _) ?_ ?_
    · refine List.forall_mem_cons.2 ⟨.single hrefers, ?_⟩
      exact fun below hmem => (leads below hmem).tail hrefers
    · refine .cons ?_ bound (hgrown.follow hindex List.mem_cons_self) leads (hrest.mono ?_ ?_)
      · simpa [new] using Ne.symm hcurrent
      · exact List.cons_subset_cons _ (List.subset_cons_self _ _)
      · intro below hmem hin
        have hne : below.1 ≠ target := fun heq => hbelow (heq ▸ List.mem_map_of_mem hmem)
        simpa [hne] using hin

/-- A reference to an entry on the way closes a cycle. -/
theorem Underway.onCycle {order : List Nat} {current target : Nat} {label : String}
    {labels : List String} {rest : List Pending}
    (h : Underway entries order ((current, label :: labels) :: rest))
    (hindex : indexOf? entries label = some target)
    (hway : target ∈ current :: rest.map (·.1)) : OnCycle entries target := by
  cases h with
  | cons _ _ followed leads _ =>
    have hrefers : Refers entries current target := .of_indexOf? followed.mem_references hindex
    rcases List.mem_cons.1 hway with rfl | hway
    · exact .single hrefers
    · obtain ⟨below, hmem, rfl⟩ := List.mem_map.1 hway
      exact (leads below hmem).tail hrefers

/-! ## The walk -/

/-- The result of a search that has to order some entries. -/
def Searched (entries : List HeapEntry) (required : List Nat) :
    Except Error (List Nat) → Prop
  | .ok order => Ordered entries order ∧ required ⊆ order
  | .error error => Fault entries error

theorem Searched.mono {required required' : List Nat} {result : Except Error (List Nat)}
    (h : Searched entries required' result) (hsub : required ⊆ required') :
    Searched entries required result := by
  cases result with
  | error => exact h
  | ok => exact ⟨h.1, List.Subset.trans hsub h.2⟩

theorem searched_walk {work : List Pending} {order : List Nat} (hordered : Ordered entries order)
    (hunderway : Underway entries order work) :
    Searched entries (work.map (·.1) ++ order) (walk entries work order) := by
  fun_induction walk entries work order with
  | case1 order => exact ⟨hordered, List.Subset.refl _⟩
  | case2 order current rest ih =>
    cases hunderway with
    | cons new bound followed _ hrest =>
      refine (ih (.cons new bound followed.resolved hordered) hrest).mono ?_
      exact List.Perm.subset List.perm_middle.symm
  | case3 order current label labels rest hindex =>
    cases hunderway with
    | cons _ _ followed _ _ =>
      obtain ⟨entry, hentry, hlabel⟩ := mem_referencesAt.1 followed.mem_references
      exact .unknown (List.mem_of_getElem? hentry) hlabel (indexOf?_eq_none.1 hindex)
  | case4 order current label labels rest target hindex hdone ih =>
    exact ih hordered (hunderway.follow hindex (by simpa using hdone))
  | case5 order current label labels rest target hindex hdone hway =>
    obtain ⟨entry, hentry, rfl⟩ := exists_entry_of_indexOf? hindex
    exact .cycle hentry (hunderway.onCycle hindex (by simpa using hway))
  | case6 order current label labels rest target hindex hdone hway _ ih =>
    refine (ih hordered (hunderway.visit hindex ?_ ?_)).mono (List.subset_cons_self _ _)
    · simpa using hdone
    · simpa using hway

theorem searched_walkAll {roots order : List Nat} (hroots : ∀ root ∈ roots, root < entries.length)
    (hordered : Ordered entries order) :
    Searched entries (roots ++ order) (walkAll entries roots order) := by
  induction roots generalizing order with
  | nil => exact ⟨hordered, List.Subset.refl _⟩
  | cons root roots ih =>
    obtain ⟨hroot, hrest⟩ := List.forall_mem_cons.1 hroots
    rw [walkAll]
    split
    · next hdone =>
      have hmem : root ∈ order := by simpa using hdone
      refine (ih hrest hordered).mono (List.cons_subset.2 ⟨?_, List.Subset.refl _⟩)
      exact List.mem_append_right _ hmem
    · next hdone =>
      have hwalk := searched_walk hordered
        (.cons (by simpa using hdone) hroot (followed_references order root) (by simp) .nil)
      cases hresult : walk entries [(root, referencesAt entries root)] order with
      | error error => rwa [hresult] at hwalk
      | ok found =>
        rw [hresult] at hwalk
        obtain ⟨hfound, hsub⟩ := hwalk
        refine (ih hrest hfound).mono ?_
        intro index hindex
        simp only [List.cons_append, List.mem_cons, List.mem_append] at hindex ⊢
        rcases hindex with rfl | hindex | hindex
        · exact .inr (hsub List.mem_cons_self)
        · exact .inl hindex
        · exact .inr (hsub (List.mem_cons_of_mem _ hindex))

theorem searched_walkAll_range (entries : List HeapEntry) :
    Searched entries (List.range entries.length)
      (walkAll entries (List.range entries.length) []) := by
  apply (searched_walkAll (fun _ => List.mem_range.1) .nil).mono
  exact List.subset_append_left _ _

/-! ## The creation order -/

theorem fault_of_creationOrder {error : Error} (h : creationOrder entries = .error error) :
    Fault entries error := by
  rw [creationOrder] at h
  split at h
  · next id hid =>
    cases h
    obtain ⟨hmem, -⟩ | hrepeated := firstRepeated_eq_some hid
    · cases hmem
    · exact .duplicate hrepeated
  · have hsearched := searched_walkAll_range entries
    cases hwalk : walkAll entries (List.range entries.length) [] with
    | error found =>
      rw [hwalk] at h hsearched
      cases h
      exact hsearched
    | ok order =>
      rw [hwalk] at h
      cases h

theorem ordered_of_creationOrder {order : List Nat} (h : creationOrder entries = .ok order) :
    (entries.map (·.id)).Nodup ∧ Ordered entries order.reverse ∧
      ∀ index < entries.length, index ∈ order := by
  rw [creationOrder] at h
  split at h
  · cases h
  · next hid =>
    have hsearched := searched_walkAll_range entries
    cases hwalk : walkAll entries (List.range entries.length) [] with
    | error found =>
      rw [hwalk] at h
      cases h
    | ok found =>
      rw [hwalk] at h hsearched
      cases h
      obtain ⟨hordered, hall⟩ := hsearched
      refine ⟨(nodup_of_firstRepeated hid).1, by rwa [List.reverse_reverse], ?_⟩
      intro index hindex
      rw [List.mem_reverse]
      exact hall (List.mem_range.2 hindex)

/-- In the order an entry stands behind all it refers to. -/
theorem idxOf_lt_of_creationOrder {order : List Nat} (h : creationOrder entries = .ok order)
    {source target : Nat} (hrefers : Refers entries source target) :
    order.idxOf target < order.idxOf source := by
  obtain ⟨hids, hordered, hall⟩ := ordered_of_creationOrder h
  have hsource : source ∈ order.reverse := List.mem_reverse.2 (hall source hrefers.lt_length)
  simpa using (hordered.idxOf_lt hids hsource hrefers).2

theorem orderable_of_creationOrder {order : List Nat} (h : creationOrder entries = .ok order) :
    Orderable entries where
  distinct := (ordered_of_creationOrder h).1
  declared := by
    intro entry hentry label hlabel
    obtain ⟨-, hordered, hall⟩ := ordered_of_creationOrder h
    obtain ⟨index, hindex, rfl⟩ := List.mem_iff_getElem.1 hentry
    have hresolved := hordered.resolved (List.mem_reverse.2 (hall index hindex))
    obtain ⟨target, -, htarget⟩ :=
      hresolved label (mem_referencesAt.2 ⟨_, List.getElem?_eq_getElem hindex, hlabel⟩)
    by_contra hundeclared
    rw [indexOf?_eq_none.2 hundeclared] at htarget
    cases htarget
  acyclic := by
    -- positions fall along references, so they would fall around a cycle
    have hfalls : ∀ {source target}, TransGen (Refers entries) source target →
        order.idxOf target < order.idxOf source := by
      intro source target hpath
      induction hpath with
      | single hrefers => exact idxOf_lt_of_creationOrder h hrefers
      | tail _ hrefers ih => exact Nat.lt_trans (idxOf_lt_of_creationOrder h hrefers) ih
    exact fun index hcycle => Nat.lt_irrefl _ (hfalls hcycle)

/-- The walk is sound and complete: it gives an order exactly if the entries can be
put in order, the order it gives has every entry once and behind all it refers to,
and an error names what is wrong with the entries. Repeated identifiers are found
before anything else. -/
theorem creationOrder_sound_and_complete (entries : List HeapEntry) :
    ((∃ order, creationOrder entries = .ok order) ↔ Orderable entries) ∧
    (∀ order, creationOrder entries = .ok order →
      order.Perm (List.range entries.length) ∧
      ∀ source target, Refers entries source target →
        order.idxOf target < order.idxOf source) ∧
    ((∃ id, creationOrder entries = .error (.duplicateHeapId id)) ↔
      ¬(entries.map (·.id)).Nodup) ∧
    ∀ error, creationOrder entries = .error error → Fault entries error := by
  refine ⟨⟨?_, ?_⟩, ?_, ⟨?_, ?_⟩, fun error => fault_of_creationOrder⟩
  · rintro ⟨order, horder⟩
    exact orderable_of_creationOrder horder
  · intro horderable
    cases hresult : creationOrder entries with
    | ok order => exact ⟨order, rfl⟩
    | error error => exact absurd (fault_of_creationOrder hresult) horderable.not_fault
  · intro order horder
    obtain ⟨-, hordered, hall⟩ := ordered_of_creationOrder horder
    refine ⟨?_, fun source target => idxOf_lt_of_creationOrder horder⟩
    exact (List.reverse_perm order).symm.trans
      (hordered.perm_range fun index hindex => List.mem_reverse.2 (hall index hindex))
  · rintro ⟨id, hid⟩
    cases fault_of_creationOrder hid with
    | duplicate repeated => exact repeated.not_nodup
  · intro hrepeated
    cases hfirst : firstRepeated [] (entries.map (·.id)) with
    | none => exact absurd (nodup_of_firstRepeated hfirst).1 hrepeated
    | some id => exact ⟨id, by rw [creationOrder, hfirst]⟩

/-- Four entries, the first of which refers to the last by two ways. -/
def diamond (last : List ValueSpec) : List HeapEntry :=
  [⟨"top", "ref", none, some [.ref "left", .ref "right"], none⟩,
    ⟨"left", "ref", none, some [.ref "bottom"], none⟩,
    ⟨"right", "ref", none, some [.ref "bottom", .ref "left"], none⟩,
    ⟨"bottom", "ref", none, some last, none⟩]

/-- The two ways are no cycle; a reference back to one of them makes one. -/
theorem creationOrder_sound_and_complete_diamond :
    creationOrder (diamond []) = .ok [3, 1, 2, 0] ∧ Orderable (diamond []) ∧
      Refers (diamond []) 2 1 ∧ [3, 1, 2, 0].idxOf 1 < [3, 1, 2, 0].idxOf 2 ∧
      creationOrder (diamond [.ref "left"]) = .error (.heapCycle "left") ∧
      Fault (diamond [.ref "left"]) (.heapCycle "left") := by
  have horder : creationOrder (diamond []) = .ok [3, 1, 2, 0] := by cbv
  have hcycle : creationOrder (diamond [.ref "left"]) = .error (.heapCycle "left") := by cbv
  have hrefers : Refers (diamond []) 2 1 := ⟨_, rfl, List.mem_cons_of_mem _ List.mem_cons_self⟩
  obtain ⟨hiff, hsound, -, -⟩ := creationOrder_sound_and_complete (diamond [])
  obtain ⟨-, -, -, hfault⟩ := creationOrder_sound_and_complete (diamond [.ref "left"])
  exact ⟨horder, hiff.1 ⟨_, horder⟩, hrefers, (hsound _ horder).2 2 1 hrefers, hcycle,
    hfault _ hcycle⟩

end Fixture

end TypedStack
