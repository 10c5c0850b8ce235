import RowFilter.Text.Character

/-!
# The character classes do not overlap

A token is told from another one by its first character, and blanks begin no token. This needs facts
about the tables of code points: letters, numerals and blanks are apart from each other where it
matters, and none of the signs of the language is in any of these classes. Each table is searched
once, for the ranges of another one.
-/

set_option autoImplicit false

namespace RowFilter.Text

/-- No range of one table meets a range of the other. -/
def Apart (a b : List (Nat × Nat)) : Prop :=
  ∀ r ∈ a, ∀ s ∈ b, r.2 < s.1 ∨ s.2 < r.1

/-- Whether two tables are apart can be decided from their ranges. -/
instance (a b : List (Nat × Nat)) : Decidable (Apart a b) :=
  inferInstanceAs (Decidable (∀ r ∈ a, ∀ s ∈ b, r.2 < s.1 ∨ s.2 < r.1))

/-- A code point is in a table exactly if it lies between the ends of one of its ranges. -/
theorem inRanges_eq_true_iff {ranges : List (Nat × Nat)} {code : Nat} :
    inRanges ranges code = true ↔ ∃ r ∈ ranges, r.1 ≤ code ∧ code ≤ r.2 := by
  simp [inRanges]

/-- No code point is in two tables that are apart. -/
theorem inRanges_eq_false_of_apart {a b : List (Nat × Nat)} (h : Apart a b) {code : Nat}
    (ha : inRanges a code = true) : inRanges b code = false := by
  rw [Bool.eq_false_iff]
  intro hb
  obtain ⟨r, hr, hlow, hhigh⟩ := inRanges_eq_true_iff.mp ha
  obtain ⟨s, hs, hlow', hhigh'⟩ := inRanges_eq_true_iff.mp hb
  rcases h r hr s hs with hlt | hlt
  · omega
  · omega

/-- The code points of the ASCII letters and the underscore. -/
def asciiWordRanges : List (Nat × Nat) :=
  [(0x41, 0x5a), (0x5f, 0x5f), (0x61, 0x7a)]

/-- The code points of the ASCII digits. -/
def digitRanges : List (Nat × Nat) :=
  [(0x30, 0x39)]

/-- The code points of the ASCII digits are in their table. -/
theorem inRanges_of_isDigit {c : Char} (h : c.isDigit = true) :
    inRanges digitRanges c.toNat = true := by
  simp only [Char.isDigit, Bool.and_eq_true, decide_eq_true_eq] at h
  obtain ⟨hlow, hhigh⟩ := h
  refine inRanges_eq_true_iff.mpr ⟨(0x30, 0x39), by decide, ?_, ?_⟩
  · exact hlow
  · exact hhigh

/-- Whatever begins a word is a letter of the table, an ASCII letter or an underscore. -/
theorem inRanges_of_isWordStart {c : Char} (h : isWordStart c = true) :
    inRanges (asciiWordRanges ++ letterRanges) c.toNat = true := by
  rw [inRanges, List.any_append, Bool.or_eq_true]
  rw [isWordStart, Bool.or_eq_true, beq_iff_eq] at h
  rcases h with hletter | rfl
  · unfold isLetter at hletter
    split at hletter
    · left
      refine inRanges_eq_true_iff.mpr ?_
      rcases Bool.or_eq_true_iff.mp hletter with hupper | hlower
      · obtain ⟨hlow, hhigh⟩ := of_decide_eq_true hupper
        exact ⟨(0x41, 0x5a), by decide, hlow, hhigh⟩
      · obtain ⟨hlow, hhigh⟩ := Bool.and_eq_true_iff.mp hlower
        exact ⟨(0x61, 0x7a), by decide, of_decide_eq_true hlow, of_decide_eq_true hhigh⟩
    · exact Or.inr hletter
  · left
    decide

/-- No digit is white space. -/
theorem isBlank_of_isDigit {c : Char} (h : c.isDigit = true) : isBlank c = false :=
  inRanges_eq_false_of_apart (by decide) (inRanges_of_isDigit h)

/-- Nothing that begins a word is white space. -/
theorem isBlank_of_isWordStart {c : Char} (h : isWordStart c = true) : isBlank c = false :=
  inRanges_eq_false_of_apart (by decide +kernel) (inRanges_of_isWordStart h)

/-- No blank goes on with a word. -/
theorem isBlank_of_isWordChar {c : Char} (h : isWordChar c = true) : isBlank c = false := by
  rw [isWordChar, Bool.or_right_comm, Bool.or_eq_true] at h
  rcases h with hstart | hnumeral
  · exact isBlank_of_isWordStart hstart
  · unfold isNumeral at hnumeral
    split at hnumeral
    · exact isBlank_of_isDigit hnumeral
    · exact inRanges_eq_false_of_apart (by decide +kernel) hnumeral

/-- Nothing that begins a word is a digit. -/
theorem isDigit_of_isWordStart {c : Char} (h : isWordStart c = true) : c.isDigit = false := by
  rw [Bool.eq_false_iff]
  intro hdigit
  have hapart := inRanges_eq_false_of_apart (b := asciiWordRanges ++ letterRanges)
    (by decide +kernel) (inRanges_of_isDigit hdigit)
  rw [inRanges_of_isWordStart h] at hapart
  contradiction

/-- An ASCII letter begins a word. -/
theorem isWordStart_of_isAlpha {c : Char} (h : c.isAlpha = true) : isWordStart c = true := by
  have hlt : c.toNat < 0x80 := by
    have halpha := h
    unfold Char.isAlpha Char.isUpper Char.isLower at halpha
    simp only [Bool.or_eq_true, Bool.and_eq_true, decide_eq_true_eq,
      UInt32.le_iff_toNat_le] at halpha
    have hlower : 'z'.val.toNat = 122 := rfl
    have hupper : 'Z'.val.toNat = 90 := rfl
    show c.val.toNat < 0x80
    omega
  rw [isWordStart, isLetter, if_pos hlt, h, Bool.true_or]

/-- Only ASCII letters have an ASCII capital. -/
theorem isAlpha_of_isUpper_toUpper {c : Char} (h : c.toUpper.isUpper = true) :
    c.isAlpha = true := by
  unfold Char.isAlpha
  unfold Char.toUpper at h
  split at h
  · rename_i hlower
    unfold Char.isLower
    simp only [Bool.or_eq_true, Bool.and_eq_true, decide_eq_true_eq]
    exact Or.inr hlower
  · rw [h, Bool.true_or]

/-- The characters that begin a string, a quoted name or a sign. -/
def marks : List Char :=
  ['\'', '"', '-', '+', '=', '!', '<', '>', ',', '.', '(', ')']

/-- The characters of signs and quotes belong to none of the classes. -/
theorem classes_of_mem_marks {c : Char} (h : c ∈ marks) :
    isBlank c = false ∧ c.isDigit = false ∧ isWordStart c = false ∧ isWordChar c = false := by
  have hall : marks.all (fun c => !isBlank c && !c.isDigit && !isWordStart c && !isWordChar c) =
      true := by
    decide +kernel
  simpa [and_assoc] using List.all_eq_true.mp hall c h

end RowFilter.Text
