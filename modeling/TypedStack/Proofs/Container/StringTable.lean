import TypedStack.Proofs.Container.Reading

/-!
# What is in a string table

Any bytes can stand where the string table of a container is. They are complete records, each
a string behind its length, and a tail that does not start with a complete record. There is
one way to see them so. Counting the strings finds these records and stops at the tail, and
the size of the table without the lengths in it is that of the records and the tail.
-/

namespace TypedStack

namespace Container

variable {record record' rest rest' table tail tail' : Bytes} {records records' : List Bytes}
  {count : Nat}

/-- No complete record stands at the front. -/
def Incomplete (tail : Bytes) : Prop :=
  ∀ record : Bytes, record.length < Nat.pow 256 4 → ¬framed 4 record <+: tail

/-- The bytes of a table are complete records and a tail that starts with none. -/
structure Splits (table : Bytes) (records : List Bytes) (tail : Bytes) : Prop where
  table_eq : table = records.flatMap (framed 4) ++ tail
  length_lt : ∀ record ∈ records, record.length < Nat.pow 256 4
  incomplete : Incomplete tail

/-! ## Records -/

@[simp] theorem length_framed (width : Nat) (bytes : Bytes) :
    (framed width bytes).length = width + bytes.length := by
  simp [framed]

/-- A record at the front is as long as the first four bytes say. -/
theorem length_eq_of_framed_isPrefix {a b c d : UInt8} (h : record.length < Nat.pow 256 4)
    (hrecord : framed 4 record <+: a :: b :: c :: d :: rest) :
    Bytes.toNatLE [a, b, c, d] = record.length ∧ record.length ≤ rest.length := by
  obtain ⟨behind, hbehind⟩ := hrecord
  have hparts : Bytes.ofNatLE 4 record.length ++ (record ++ behind) = [a, b, c, d] ++ rest := by
    rw [← List.append_assoc]
    exact hbehind
  obtain ⟨hnumber, hrest⟩ := List.append_inj hparts (Bytes.length_ofNatLE 4 _)
  refine ⟨?_, ?_⟩
  · rw [← hnumber, Bytes.toNatLE_ofNatLE _ _ h]
  · rw [← hrest, List.length_append]
    exact Nat.le_add_right _ _

/-- Bytes of which there are as many as the four bytes in front say are a record. -/
theorem cons_eq_framed_append {a b c d : UInt8} {length : Nat}
    (hlength : length = Bytes.toNatLE [a, b, c, d]) (h : (rest.take length).length = length) :
    a :: b :: c :: d :: rest = framed 4 (rest.take length) ++ rest.drop length := by
  have hfour : Bytes.ofNatLE 4 length = [a, b, c, d] := by
    rw [hlength]
    exact Bytes.ofNatLE_toNatLE [a, b, c, d]
  rw [framed, h, hfour, List.append_assoc, List.take_append_drop]
  rfl

/-- A record tells where it ends. -/
theorem framed_append_inj (h : record.length < Nat.pow 256 4)
    (h' : record'.length < Nat.pow 256 4)
    (heq : framed 4 record ++ rest = framed 4 record' ++ rest') :
    record = record' ∧ rest = rest' := by
  simp only [framed, List.append_assoc] at heq
  obtain ⟨hnumber, heq⟩ := List.append_inj heq (by simp)
  have hlength : record.length = record'.length := by
    rw [← Bytes.toNatLE_ofNatLE 4 _ h, hnumber, Bytes.toNatLE_ofNatLE 4 _ h']
  exact List.append_inj heq hlength

theorem countStrings_framed (h : record.length < Nat.pow 256 4) :
    countStrings count (framed 4 record ++ rest) = countStrings (count + 1) rest := by
  obtain ⟨a, b, c, d, hfour⟩ :
      ∃ a b c d, Bytes.ofNatLE 4 record.length = [a, b, c, d] :=
    ⟨_, _, _, _, rfl⟩
  have hlength : Bytes.toNatLE [a, b, c, d] = record.length := by
    rw [← hfour, Bytes.toNatLE_ofNatLE _ _ h]
  simp only [framed, hfour, List.cons_append, List.nil_append]
  rw [countStrings, hlength, List.take_left, if_pos rfl, List.drop_left]

/-! ## Tables -/

theorem Splits.nil (h : Incomplete tail) : Splits tail [] tail :=
  ⟨rfl, by simp, h⟩

theorem Splits.cons (hrecord : record.length < Nat.pow 256 4) (h : Splits rest records tail) :
    Splits (framed 4 record ++ rest) (record :: records) tail := by
  refine ⟨?_, List.forall_mem_cons.2 ⟨hrecord, h.length_lt⟩, h.incomplete⟩
  rw [h.table_eq, List.flatMap_cons, List.append_assoc]

/-- Counting goes from record to record and stops where no complete one follows. -/
theorem exists_splits_of_countStrings (count : Nat) (table : Bytes) :
    ∃ records tail, Splits table records tail ∧
      countStrings count table = count + records.length := by
  fun_induction countStrings count table with
  | case1 count a b c d rest length hcomplete ih =>
    obtain ⟨records, tail, hsplits, hcount⟩ := ih
    have hlt : (rest.take length).length < Nat.pow 256 4 := by
      rw [hcomplete]
      exact Bytes.toNatLE_lt [a, b, c, d]
    rw [cons_eq_framed_append rfl hcomplete]
    refine ⟨_, tail, hsplits.cons hlt, ?_⟩
    rw [hcount, List.length_cons]
    omega
  | case2 count a b c d rest length hshort =>
    refine ⟨[], _, Splits.nil ?_, rfl⟩
    intro record hlt hrecord
    obtain ⟨hlength, hle⟩ := length_eq_of_framed_isPrefix hlt hrecord
    rw [← hlength] at hle
    exact hshort (List.length_take_of_le hle)
  | case3 count table hfour =>
    refine ⟨[], _, Splits.nil ?_, rfl⟩
    intro record hlt hrecord
    have hle := hrecord.length_le
    rw [length_framed] at hle
    rcases table with _ | ⟨a, _ | ⟨b, _ | ⟨c, _ | ⟨d, rest⟩⟩⟩⟩
    case cons.cons.cons.cons => exact hfour a b c d rest rfl
    all_goals
      simp only [List.length_cons, List.length_nil] at hle
      omega

theorem Splits.of_cons (h : Splits table (record :: records) tail) :
    ∃ rest, table = framed 4 record ++ rest ∧ record.length < Nat.pow 256 4 ∧
      Splits rest records tail := by
  obtain ⟨htable, hlt, htail⟩ := h
  obtain ⟨hrecord, hrecords⟩ := List.forall_mem_cons.1 hlt
  rw [List.flatMap_cons, List.append_assoc] at htable
  exact ⟨_, htable, hrecord, rfl, hrecords, htail⟩

theorem Splits.records_eq_nil (h : Splits table records tail) (hincomplete : Incomplete table) :
    records = [] := by
  cases records with
  | nil => rfl
  | cons record records =>
    obtain ⟨rest, rfl, hlt, -⟩ := h.of_cons
    exact absurd (List.prefix_append _ rest) (hincomplete record hlt)

/-- There is one way to take a table apart. -/
theorem Splits.unique (h : Splits table records tail) (h' : Splits table records' tail') :
    records' = records ∧ tail' = tail := by
  induction records generalizing table records' with
  | nil =>
    obtain rfl : table = tail := h.table_eq
    obtain rfl := h'.records_eq_nil h.incomplete
    exact ⟨rfl, h'.table_eq.symm⟩
  | cons record records ih =>
    obtain ⟨rest, htable, hlt, hrest⟩ := h.of_cons
    cases records' with
    | nil =>
      obtain rfl : table = tail' := h'.table_eq
      cases h.records_eq_nil h'.incomplete
    | cons record' records' =>
      obtain ⟨rest', htable', hlt', hrest'⟩ := h'.of_cons
      obtain ⟨rfl, rfl⟩ := framed_append_inj hlt hlt' (htable.symm.trans htable')
      obtain ⟨rfl, rfl⟩ := ih hrest hrest'
      exact ⟨rfl, rfl⟩

/-- All bytes of a table are accounted for. -/
theorem Splits.length_eq (h : Splits table records tail) :
    table.length = 4 * records.length + ((records.map List.length).sum + tail.length) := by
  induction records generalizing table with
  | nil =>
    rw [h.table_eq]
    simp
  | cons record records ih =>
    obtain ⟨rest, rfl, -, hrest⟩ := h.of_cons
    rw [List.length_append, length_framed, ih hrest, List.map_cons, List.sum_cons,
      List.length_cons]
    omega

/-- Whatever bytes stand in the string table of a container, they are some complete records
and a tail that does not start with another one, in one way. The records are what is counted
as strings. Their lengths take no more bytes than there are, and what is told of the size of
the strings is the size of the records and the tail. -/
theorem stringTable_accounted (table : Bytes) (container : Container) :
    ∃ records tail, Splits table records tail ∧
      (∀ records' tail', Splits table records' tail' → records' = records ∧ tail' = tail) ∧
      countStrings 0 table = records.length ∧
      4 * countStrings 0 table ≤ table.length ∧
      { container with strings := table }.info.strings = records.length ∧
      { container with strings := table }.info.stringBytes =
        (records.map List.length).sum + tail.length := by
  obtain ⟨records, tail, hsplits, hcount⟩ := exists_splits_of_countStrings 0 table
  have hlength := hsplits.length_eq
  rw [Nat.zero_add] at hcount
  refine ⟨records, tail, hsplits, fun _ _ => hsplits.unique, hcount, ?_, hcount, ?_⟩
  · omega
  · simp only [Container.info]
    omega

/-- Two complete records and a length with too few bytes behind it. -/
example :
    countStrings 0 [1, 0, 0, 0, 97, 0, 0, 0, 0, 255, 255, 255, 255, 98] = 2 := by
  decide +kernel

end Container

end TypedStack
