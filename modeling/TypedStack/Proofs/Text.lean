import Mathlib.Algebra.Ring.Nat
import Mathlib.Data.List.TakeWhile
import TypedStack.Text.Digits
import TypedStack.Text.Words

/-!
# Cutting composed text

Parts put together with a character between them are found again by cutting at
that character, if none of them holds a character at which the text is cut. Words
and lines are both cases of it. Decimal digits are read as the number they stand
for.
-/

namespace TypedStack

namespace Text

/-! ## Pieces -/

theorem pieces_of_uncut {cut : Char → Bool} {part : List Char}
    (h : ∀ c ∈ part, cut c = false) : pieces cut part = [part] := by
  induction part with
  | nil => rfl
  | cons first rest ih =>
    obtain ⟨hfirst, hrest⟩ := List.forall_mem_cons.1 h
    simp [hfirst, ih hrest, attach]

theorem pieces_append_cut {cut : Char → Bool} {part : List Char} {mark : Char}
    (h : ∀ c ∈ part, cut c = false) (hmark : cut mark = true) (text : List Char) :
    pieces cut (part ++ mark :: text) = part :: pieces cut text := by
  induction part with
  | nil => simp [hmark]
  | cons first rest ih =>
    obtain ⟨hfirst, hrest⟩ := List.forall_mem_cons.1 h
    simp [hfirst, ih hrest, attach]

theorem pieces_intercalate {cut : Char → Bool} {mark : Char} {parts : List (List Char)}
    (hmark : cut mark = true) (hne : parts ≠ [])
    (h : ∀ part ∈ parts, ∀ c ∈ part, cut c = false) :
    pieces cut ([mark].intercalate parts) = parts := by
  induction parts with
  | nil => exact absurd rfl hne
  | cons first rest ih =>
    obtain ⟨hfirst, hrest⟩ := List.forall_mem_cons.1 h
    cases rest with
    | nil => rw [List.intercalate_singleton, pieces_of_uncut hfirst]
    | cons second others =>
      rw [List.intercalate_cons_cons, List.append_assoc, List.singleton_append,
        pieces_append_cut hfirst hmark, ih (List.cons_ne_nil _ _) hrest]

theorem mem_intercalate {mark c : Char} {parts : List (List Char)}
    (h : c ∈ [mark].intercalate parts) : c = mark ∨ ∃ part ∈ parts, c ∈ part := by
  induction parts with
  | nil => simp at h
  | cons first rest ih =>
    cases rest with
    | nil => exact .inr ⟨first, List.mem_cons_self, by simpa using h⟩
    | cons second others =>
      rw [List.intercalate_cons_cons, List.mem_append, List.mem_append] at h
      rcases h with (hfirst | hmark) | hrest
      · exact .inr ⟨first, List.mem_cons_self, hfirst⟩
      · exact .inl (List.mem_singleton.1 hmark)
      · obtain hmark | ⟨part, hpart, hc⟩ := ih hrest
        · exact .inl hmark
        · exact .inr ⟨part, List.mem_cons_of_mem _ hpart, hc⟩

theorem before_eq_self {mark : Char} {text : List Char} (h : mark ∉ text) :
    before mark text = text := by
  rw [before, List.takeWhile_eq_self_iff]
  intro c hc
  simpa using fun heq : c = mark => h (heq ▸ hc)

theorem before_append {mark : Char} {text : List Char} (h : mark ∉ text) (rest : List Char) :
    before mark (text ++ mark :: rest) = text := by
  rw [before, List.takeWhile_append_of_pos fun c hc => by
    simpa using fun heq : c = mark => h (heq ▸ hc)]
  simp

/-! ## Words -/

/-- A word has characters, none of them blank. -/
def IsWord (word : List Char) : Prop :=
  word ≠ [] ∧ ∀ c ∈ word, isBlank c = false

instance (word : List Char) : Decidable (IsWord word) :=
  decidable_of_iff (word ≠ [] ∧ word.all (!isBlank ·) = true) (by simp [IsWord])

theorem words_intercalate {parts : List (List Char)} (h : ∀ part ∈ parts, IsWord part) :
    words ([' '].intercalate parts) = parts := by
  by_cases hne : parts = []
  · rw [hne]
    rfl
  · rw [words, pieces_intercalate (by decide) hne fun part hpart => (h part hpart).2,
      List.filter_eq_self]
    intro part hpart
    simpa using (h part hpart).1

theorem words_of_blank {text : List Char} (h : ∀ c ∈ text, isBlank c = true) :
    words text = [] := by
  induction text with
  | nil => rfl
  | cons first rest ih =>
    obtain ⟨hfirst, hrest⟩ := List.forall_mem_cons.1 h
    rw [words, pieces_cons, if_pos hfirst]
    exact ih hrest

theorem trim_eq_nil {text : List Char} : trim text = [] ↔ ∀ c ∈ text, isBlank c = true := by
  rw [trim, List.reverse_eq_nil_iff, List.dropWhile_eq_nil_iff]
  constructor
  · intro h
    -- a character that is not blank would stay in front after the first cut
    by_contra hnot
    have hne : text.dropWhile isBlank ≠ [] := fun hnil => hnot (List.dropWhile_eq_nil_iff.1 hnil)
    have hhead := List.head_dropWhile_not isBlank hne
    rw [h _ (List.mem_reverse.2 (List.head_mem hne))] at hhead
    exact Bool.noConfusion hhead
  · intro h c hc
    exact h c (List.dropWhile_subset isBlank (List.mem_reverse.1 hc))

/-! ## Lines -/

/-- A text that is one line: it is not empty, and no line feed or carriage return is
in it. -/
def IsLine (line : List Char) : Prop :=
  line ≠ [] ∧ '\n' ∉ line ∧ '\r' ∉ line

theorem isLine_intercalate {parts : List (List Char)} (hne : parts ≠ [])
    (h : ∀ part ∈ parts, IsWord part) : IsLine ([' '].intercalate parts) := by
  have hblank : ∀ c, isBlank c = true → c ∈ [' '].intercalate parts → c = ' ' := by
    intro c hc hmem
    obtain hspace | ⟨part, hpart, hmem⟩ := mem_intercalate hmem
    · exact hspace
    · rw [(h part hpart).2 c hmem] at hc
      cases hc
  refine ⟨fun hnil => hne ?_, fun hfeed => ?_, fun hreturn => ?_⟩
  · rw [← words_intercalate h, hnil]
    rfl
  · exact absurd (hblank _ (by decide) hfeed) (by decide)
  · exact absurd (hblank _ (by decide) hreturn) (by decide)

theorem closeLines_eq_self {parts : List (List Char)} (h : ∀ part ∈ parts, IsLine part) :
    closeLines parts = parts := by
  induction parts with
  | nil => rfl
  | cons first rest ih =>
    obtain ⟨⟨hne, -, hreturn⟩, hrest⟩ := List.forall_mem_cons.1 h
    cases rest with
    | nil => simp [closeLines, hne]
    | cons second others =>
      have hlast : first.getLast? ≠ some '\r' :=
        fun heq => hreturn (List.mem_of_getLast? heq)
      rw [closeLines, ih hrest, dropReturn, if_neg hlast]

theorem lines_intercalate {texts : List String} (h : ∀ text ∈ texts, IsLine text.toList) :
    lines (String.intercalate "\n" texts) = texts := by
  have hparts : ∀ part ∈ texts.map String.toList, IsLine part := by
    simpa using h
  have hpieces : closeLines (pieces (· == '\n') (['\n'].intercalate (texts.map String.toList))) =
      texts.map String.toList := by
    by_cases hne : texts = []
    · rw [hne]
      rfl
    · rw [pieces_intercalate (by rfl) (by simpa using hne), closeLines_eq_self hparts]
      intro part hpart c hc
      have hfeed : c ≠ '\n' := fun heq => (hparts part hpart).2.1 (heq ▸ hc)
      simpa using hfeed
  rw [lines, String.toList_intercalate]
  change (closeLines (pieces _ (['\n'].intercalate _))).map _ = _
  rw [hpieces, List.map_map]
  simp [Function.comp_def]

/-! ## Numerals -/

theorem digitIn?_of_isDigit {c : Char} (h : c.isDigit = true) :
    digitIn? 10 c = some (c.toNat - '0'.toNat) := by
  have hrange := Char.isDigit_iff_toNat.1 h
  have hbounds : '0' ≤ c ∧ c ≤ '9' := hrange
  have hvalue : c.toNat - '0'.toNat < 10 := by
    have hnine : '9'.toNat = '0'.toNat + 9 := rfl
    omega
  rw [digitIn?, digitValue?, if_pos hbounds, Option.filter_some, if_pos (by simpa using hvalue)]

theorem digitsFrom?_of_isDigit {digits : List Char} (h : ∀ c ∈ digits, c.isDigit = true)
    (acc : Nat) : digitsFrom? 10 acc digits = some (Nat.ofDigitChars 10 digits acc) := by
  induction digits generalizing acc with
  | nil => rfl
  | cons first rest ih =>
    obtain ⟨hfirst, hrest⟩ := List.forall_mem_cons.1 h
    rw [digitsFrom?, digitIn?_of_isDigit hfirst, Nat.ofDigitChars_cons]
    exact ih hrest _

/-- Neither a sign nor the mark of hexadecimal digits is a digit. -/
theorem numeral?_of_isDigit {digits : List Char} (hne : digits ≠ [])
    (h : ∀ c ∈ digits, c.isDigit = true) :
    numeral? digits = some (Nat.ofDigitChars 10 digits 0) := by
  rw [← digitsFrom?_of_isDigit h]
  unfold numeral?
  split
  · exact absurd (h 'x' (by simp)) (by decide)
  · unfold unsigned?
    split
    · exact absurd (h '+' (by simp)) (by decide)
    · exact absurd (h '+' (by simp)) (by decide)
    · exact absurd rfl hne
    · rfl

theorem isDigit_of_mem_toDigits {n : Nat} : ∀ c ∈ Nat.toDigits 10 n, c.isDigit = true :=
  fun _ => Nat.isDigit_of_mem_toDigits (by decide) (Nat.le_refl _)

theorem numeral?_toDigits (n : Nat) : numeral? (Nat.toDigits 10 n) = some n := by
  rw [numeral?_of_isDigit Nat.toDigits_ne_nil isDigit_of_mem_toDigits,
    Nat.ofDigitChars_toDigits (by decide) (Nat.le_refl _)]

theorem isBlank_of_isDigit {c : Char} (h : c.isDigit = true) : isBlank c = false := by
  obtain ⟨hlow, hhigh⟩ : 48 ≤ c.toNat ∧ c.toNat ≤ 57 := Char.isDigit_iff_toNat.1 h
  simp only [isBlank, blankRanges, List.any_cons, List.any_nil, Bool.or_false, Bool.or_eq_false_iff,
    Bool.and_eq_false_iff, decide_eq_false_iff_not]
  omega

theorem isWord_toDigits (n : Nat) : IsWord (Nat.toDigits 10 n) :=
  ⟨Nat.toDigits_ne_nil, fun c hc => isBlank_of_isDigit (isDigit_of_mem_toDigits c hc)⟩

end Text

end TypedStack
