import Mathlib.Data.List.Forall2
import Mathlib.Data.Nat.Digits.Defs
import TypedStack.Proofs.Text

/-!
# Words and numerals by their grammar

A text has words with blanks around them, and a line has those before its first
semicolon. A numeral is a run of digits behind an optional sign, in base ten or, behind a
mark, in base sixteen. Each grammar is stated on its own, and the function that cuts
the text or reads the numeral finds exactly what the grammar has.
-/

namespace TypedStack

namespace Text

/-! ## Words -/

/-- The words of a text, in order. Each ends where the text does or at a blank. -/
inductive HasWords : List Char → List (List Char) → Prop
  | none {text : List Char} (blank : ∀ c ∈ text, isBlank c = true) : HasWords text []
  | cons {blanks word rest : List Char} {others : List (List Char)}
      (blank : ∀ c ∈ blanks, isBlank c = true) (isWord : IsWord word)
      (ends : ∀ c ∈ rest.head?, isBlank c = true) (has_rest : HasWords rest others) :
      HasWords (blanks ++ word ++ rest) (word :: others)

theorem words_append_blanks {blanks : List Char} (h : ∀ c ∈ blanks, isBlank c = true)
    (text : List Char) : words (blanks ++ text) = words text := by
  induction blanks with
  | nil => rfl
  | cons first others ih =>
    obtain ⟨hfirst, hothers⟩ := List.forall_mem_cons.1 h
    rw [List.cons_append, words, pieces_cons, if_pos hfirst]
    exact ih hothers

theorem words_append_word {word rest : List Char} (hword : IsWord word)
    (hrest : ∀ c ∈ rest.head?, isBlank c = true) : words (word ++ rest) = word :: words rest := by
  have hkept : ∀ others : List (List Char),
      (word :: others).filter (!·.isEmpty) = word :: others.filter (!·.isEmpty) := by
    intro others
    apply List.filter_cons_of_pos
    simpa using hword.1
  cases rest with
  | nil =>
    rw [List.append_nil, words, pieces_of_uncut hword.2, hkept, words, pieces_nil]
    rfl
  | cons first others =>
    have hfirst := hrest first rfl
    rw [words, pieces_append_cut hword.2 hfirst, hkept, words, pieces_cons, if_pos hfirst]
    rfl

theorem words_of_hasWords {text : List Char} {parts : List (List Char)}
    (h : HasWords text parts) : words text = parts := by
  induction h with
  | none hblank => exact words_of_blank hblank
  | cons hblanks hword hends _ ih =>
    rw [List.append_assoc, words_append_blanks hblanks, words_append_word hword hends, ih]

theorem head_dropWhile {p : Char → Bool} (text : List Char) :
    ∀ c ∈ (text.dropWhile p).head?, p c = false := by
  intro c hc
  have hnot := List.head?_dropWhile_not p text
  rw [Option.mem_def.1 hc] at hnot
  exact hnot

/-- Every text has words: its first word is what comes behind the first blanks. -/
theorem hasWords_words (text : List Char) : HasWords text (words text) := by
  induction hlength : text.length using Nat.strong_induction_on generalizing text with
  | _ length ih =>
    have hblanks : ∀ c ∈ text.takeWhile isBlank, isBlank c = true :=
      fun _ => List.mem_takeWhile_imp
    have hcut := List.takeWhile_append_dropWhile (p := isBlank) (l := text)
    generalize hstart : text.dropWhile isBlank = start at hcut
    by_cases hnil : start = []
    · rw [hnil, List.append_nil] at hcut
      have hblank : ∀ c ∈ text, isBlank c = true := hcut ▸ hblanks
      rw [words_of_blank hblank]
      exact .none hblank
    · have hword : IsWord (start.takeWhile (!isBlank ·)) := by
        refine ⟨?_, fun c hc => by simpa using List.mem_takeWhile_imp hc⟩
        obtain ⟨first, others, rfl⟩ := List.exists_cons_of_ne_nil hnil
        have hfirst : isBlank first = false := head_dropWhile text first (by rw [hstart]; rfl)
        simp [hfirst]
      have hends : ∀ c ∈ (start.dropWhile (!isBlank ·)).head?, isBlank c = true :=
        fun c hc => by simpa using head_dropWhile start c hc
      have hsplit := List.takeWhile_append_dropWhile (p := (!isBlank ·)) (l := start)
      generalize start.takeWhile (!isBlank ·) = word at hword hsplit
      generalize start.dropWhile (!isBlank ·) = rest at hends hsplit
      have hshorter : rest.length < length := by
        rw [← hlength, ← hcut, ← hsplit, List.length_append, List.length_append]
        have hpos := List.length_pos_iff.2 hword.1
        omega
      have hrest := ih rest.length hshorter rest rfl
      rw [← hcut, ← hsplit, words_append_blanks hblanks, words_append_word hword hends,
        ← List.append_assoc]
      exact .cons hblanks hword hends hrest

theorem hasWords_iff {text : List Char} {parts : List (List Char)} :
    HasWords text parts ↔ words text = parts :=
  ⟨words_of_hasWords, fun h => h ▸ hasWords_words text⟩

/-! ## The part of a line before a mark -/

/-- A text that goes on with a mark, or ends, where it is cut. -/
def CutAt (mark : Char) (line text : List Char) : Prop :=
  mark ∉ text ∧ ∃ rest, line = text ++ rest ∧ ∀ c ∈ rest.head?, c = mark

theorem cutAt_iff {mark : Char} {line text : List Char} :
    CutAt mark line text ↔ before mark line = text := by
  constructor
  · rintro ⟨hmark, rest, rfl, hrest⟩
    cases rest with
    | nil => rw [List.append_nil, before_eq_self hmark]
    | cons first others =>
      obtain rfl := hrest first rfl
      exact before_append hmark others
  · rintro rfl
    refine ⟨fun hmem => ?_, line.dropWhile (· != mark), ?_, ?_⟩
    · simpa using List.mem_takeWhile_imp hmem
    · exact List.takeWhile_append_dropWhile.symm
    · intro c hc
      simpa using head_dropWhile line c hc

/-! ## Numerals -/

/-- A digit of value `d` in a base of at most sixteen. Letters count in either case. -/
def IsDigit (base : Nat) (c : Char) (d : Nat) : Prop :=
  d < base ∧ (c = d.digitChar ∨ c = d.digitChar.toUpper)

instance (base : Nat) (c : Char) (d : Nat) : Decidable (IsDigit base c d) :=
  inferInstanceAs (Decidable (_ ∧ _))

/-- Digits of a base, at least one, behind an optional plus sign. -/
def IsUnsigned (base : Nat) (text : List Char) (n : Nat) : Prop :=
  ∃ sign digits values, text = sign ++ digits ∧ (sign = [] ∨ sign = ['+']) ∧ digits ≠ [] ∧
    List.Forall₂ (IsDigit base) digits values ∧ n = Nat.ofDigits base values.reverse

/-- A numeral and its value. -/
inductive IsNumeral : List Char → Nat → Prop
  | decimal {text : List Char} {n : Nat} (h : IsUnsigned 10 text n) : IsNumeral text n
  | hexadecimal {text : List Char} {n : Nat} (h : IsUnsigned 16 text n) :
      IsNumeral ('0' :: 'x' :: text) n

theorem lt_of_digitValue?_eq_some {c : Char} {d : Nat} (h : digitValue? c = some d) :
    c.toNat < 103 := by
  rw [digitValue?] at h
  split at h
  · rename_i hrange
    exact Nat.lt_of_le_of_lt (show c.toNat ≤ '9'.toNat from hrange.2) (by decide)
  · split at h
    · rename_i hrange
      exact Nat.lt_of_le_of_lt (show c.toNat ≤ 'f'.toNat from hrange.2) (by decide)
    · obtain ⟨hrange, -⟩ := Option.ite_none_right_eq_some.1 h
      exact Nat.lt_of_le_of_lt (show c.toNat ≤ 'F'.toNat from hrange.2) (by decide)

/-- The digits are the characters that stand for the values below sixteen. -/
theorem digitValue?_eq_some {c : Char} {d : Nat} : digitValue? c = some d ↔ IsDigit 16 c d := by
  have hvalues : ∀ d < 16,
      digitValue? d.digitChar = some d ∧ digitValue? d.digitChar.toUpper = some d := by
    decide
  have hdigits : ∀ k < 103,
      (digitValue? (Char.ofNat k)).all (fun d => IsDigit 16 (Char.ofNat k) d) = true := by
    decide
  constructor
  · intro h
    have hdigit := hdigits c.toNat (lt_of_digitValue?_eq_some h)
    rw [Char.ofNat_toNat, h, Option.all_some, decide_eq_true_iff] at hdigit
    exact hdigit
  · rintro ⟨hlt, rfl | rfl⟩
    · exact (hvalues d hlt).1
    · exact (hvalues d hlt).2

theorem digitIn?_eq_some {base : Nat} {c : Char} {d : Nat} (hbase : base ≤ 16) :
    digitIn? base c = some d ↔ IsDigit base c d := by
  rw [digitIn?, Option.filter_eq_some_iff, digitValue?_eq_some, decide_eq_true_iff]
  constructor
  · rintro ⟨⟨-, hchar⟩, hlt⟩
    exact ⟨hlt, hchar⟩
  · rintro ⟨hlt, hchar⟩
    exact ⟨⟨Nat.lt_of_lt_of_le hlt hbase, hchar⟩, hlt⟩

/-- The digits in front count in steps of the power that belongs to those behind them. -/
theorem digitsFrom?_eq_some {base : Nat} (hbase : base ≤ 16) {digits : List Char} {acc n : Nat} :
    digitsFrom? base acc digits = some n ↔ ∃ values, List.Forall₂ (IsDigit base) digits values ∧
      n = base ^ values.length * acc + Nat.ofDigits base values.reverse := by
  induction digits generalizing acc with
  | nil =>
    rw [digitsFrom?, Option.some.injEq]
    constructor
    · rintro rfl
      exact ⟨[], .nil, by simp⟩
    · rintro ⟨values, hvalues, rfl⟩
      rw [List.forall₂_nil_left_iff.1 hvalues]
      simp
  | cons first rest ih =>
    have hshift : ∀ (d : Nat) (values : List Nat),
        base ^ values.length * (base * acc + d) + Nat.ofDigits base values.reverse =
          base ^ (d :: values).length * acc + Nat.ofDigits base (d :: values).reverse := by
      intro d values
      rw [List.reverse_cons, Nat.ofDigits_append, List.length_reverse, Nat.ofDigits_singleton,
        List.length_cons, Nat.pow_succ]
      ring
    rw [digitsFrom?]
    constructor
    · intro h
      split at h
      · cases h
      · rename_i d hd
        obtain ⟨values, hvalues, rfl⟩ := ih.1 h
        exact ⟨d :: values, .cons ((digitIn?_eq_some hbase).1 hd) hvalues, hshift d values⟩
    · rintro ⟨values, hvalues, rfl⟩
      obtain ⟨d, others, hd, hothers, rfl⟩ := List.forall₂_cons_left_iff.1 hvalues
      rw [(digitIn?_eq_some hbase).2 hd]
      exact ih.2 ⟨others, hothers, (hshift d others).symm⟩

theorem not_isDigit_plus {base d : Nat} (hbase : base ≤ 16) : ¬ IsDigit base '+' d := by
  rintro ⟨hlt, hchar⟩
  have hnone : ∀ d < 16, ¬ IsDigit 16 '+' d := by decide
  exact hnone d (by omega) ⟨by omega, hchar⟩

theorem digitsFrom?_zero {base : Nat} (hbase : base ≤ 16) {digits : List Char} {n : Nat} :
    digitsFrom? base 0 digits = some n ↔ ∃ values, List.Forall₂ (IsDigit base) digits values ∧
      n = Nat.ofDigits base values.reverse := by
  simp only [digitsFrom?_eq_some hbase, Nat.mul_zero, Nat.zero_add]

theorem unsigned?_eq_some {base : Nat} (hbase : base ≤ 16) {text : List Char} {n : Nat} :
    unsigned? base text = some n ↔ IsUnsigned base text n := by
  constructor
  · intro h
    unfold unsigned? at h
    split at h
    · rename_i c rest
      obtain ⟨values, hvalues, hn⟩ := (digitsFrom?_zero hbase).1 h
      exact ⟨['+'], c :: rest, values, rfl, .inr rfl, List.cons_ne_nil _ _, hvalues, hn⟩
    · cases h
    · cases h
    · rename_i c rest _ _
      obtain ⟨values, hvalues, hn⟩ := (digitsFrom?_zero hbase).1 h
      exact ⟨[], c :: rest, values, rfl, .inl rfl, List.cons_ne_nil _ _, hvalues, hn⟩
  · rintro ⟨sign, digits, values, rfl, hsign, hne, hvalues, hn⟩
    have hdigits := (digitsFrom?_zero hbase).2 ⟨values, hvalues, hn⟩
    obtain ⟨c, rest, rfl⟩ := List.exists_cons_of_ne_nil hne
    rcases hsign with rfl | rfl
    · have hplus : c ≠ '+' := by
        rintro rfl
        obtain ⟨d, _, hd, -⟩ := List.forall₂_cons_left_iff.1 hvalues
        exact not_isDigit_plus hbase hd
      rw [← hdigits, List.nil_append]
      unfold unsigned?
      split
      · rename_i heq
        exact absurd (List.cons.inj heq).1 hplus
      · rename_i heq
        exact absurd (List.cons.inj heq).1 hplus
      · rename_i heq
        exact absurd heq (List.cons_ne_nil _ _)
      · rename_i heq
        rw [heq]
    · exact hdigits

/-- The mark of hexadecimal digits is no decimal digit, so a numeral is read in one way. -/
theorem not_isUnsigned_marked {text : List Char} {n : Nat} :
    ¬ IsUnsigned 10 ('0' :: 'x' :: text) n := by
  rintro ⟨sign, digits, values, htext, hsign, -, hvalues, -⟩
  rcases hsign with rfl | rfl
  · rw [List.nil_append] at htext
    rw [← htext] at hvalues
    obtain ⟨_, _, -, hrest, rfl⟩ := List.forall₂_cons_left_iff.1 hvalues
    obtain ⟨d, _, hd, -⟩ := List.forall₂_cons_left_iff.1 hrest
    have hnone : ∀ d < 10, ¬ IsDigit 10 'x' d := by decide
    exact hnone d hd.1 hd
  · exact absurd (List.cons.inj htext).1 (by decide)

theorem numeral?_eq_some {text : List Char} {n : Nat} :
    numeral? text = some n ↔ IsNumeral text n := by
  constructor
  · intro h
    unfold numeral? at h
    split at h
    · exact .hexadecimal ((unsigned?_eq_some (by decide)).1 h)
    · exact .decimal ((unsigned?_eq_some (by decide)).1 h)
  · rintro (h | h)
    · unfold numeral?
      split
      · exact absurd h not_isUnsigned_marked
      · exact (unsigned?_eq_some (by decide)).2 h
    · exact (unsigned?_eq_some (by decide)).2 h

end Text

end TypedStack
