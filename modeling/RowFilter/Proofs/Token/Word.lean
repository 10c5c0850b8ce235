import RowFilter.Proofs.Token.Spelling

/-!
# Words and signs

A word is read as a whole if no part of a word follows it, and it is a keyword in any mixture of
upper and lower case. A sign of one character stands alone unless the second half of a longer sign
follows it. The facts about runs of characters are here too, since words are the first kind of run.
-/

set_option autoImplicit false

namespace RowFilter

/-! ## Runs -/

section Run

variable {p : Char → Bool} {cs rest : List Char}

/-- A run of characters of one class ends before a character that is not in the class. -/
theorem takeWhile_run (hcs : ∀ c ∈ cs, p c = true) (hrest : ∀ c ∈ rest.head?, p c = false) :
    (cs ++ rest).takeWhile p = cs := by
  rw [List.takeWhile_append_of_pos hcs]
  cases rest with
  | nil => simp
  | cons c rest =>
    have hc : p c = false := hrest c rfl
    simp [hc]

/-- A run that ends where the text does, or at a character of another kind, is dropped as a whole.
-/
theorem dropWhile_run (hcs : ∀ c ∈ cs, p c = true) (hrest : ∀ c ∈ rest.head?, p c = false) :
    (cs ++ rest).dropWhile p = rest := by
  rw [List.dropWhile_append_of_pos hcs]
  cases rest with
  | nil => rfl
  | cons c rest =>
    have hc : p c = false := hrest c rfl
    simp [hc]

end Run

/-! ## Words -/

namespace Text

/-- The characters make up a word. -/
def isWord : List Char → Bool
  | [] => false
  | c :: cs => isWordStart c && cs.all isWordChar

/-- No word begins with a mark. -/
theorem ne_of_isWordStart {c m : Char} (h : isWordStart c = true) (hm : m ∈ marks) : c ≠ m := by
  rintro rfl
  have hfalse := (classes_of_mem_marks hm).2.2.1
  rw [h] at hfalse
  contradiction

end Text

/-- Before what is no part of a word, a word is one lexeme. -/
theorem Lexeme.scan_word {c : Char} {cs rest : List Char} (hword : Text.isWord (c :: cs) = true)
    (hrest : ∀ d ∈ rest.head?, Text.isWordChar d = false) :
    Lexeme.scan c (cs ++ rest) = ⟨wordKind (c :: cs), c :: cs, rest⟩ := by
  simp only [Text.isWord, Bool.and_eq_true, List.all_eq_true] at hword
  obtain ⟨hstart, hall⟩ := hword
  have hquote : c ≠ '\'' := Text.ne_of_isWordStart hstart (by decide)
  have hdouble : c ≠ '"' := Text.ne_of_isWordStart hstart (by decide)
  have hminus : c ≠ '-' := Text.ne_of_isWordStart hstart (by decide)
  have hplus : c ≠ '+' := Text.ne_of_isWordStart hstart (by decide)
  have hdigit := Text.isDigit_of_isWordStart hstart
  simp only [scan, hquote, hdouble, hminus, hplus, hdigit, hstart, if_false, if_true, decide_false,
    Bool.or_false, Bool.false_and, Bool.false_eq_true, word]
  rw [takeWhile_run hall hrest, dropWhile_run hall hrest]

namespace Text

/-- A word with no character of a word after it is one token. -/
theorem kinds_word {w rest : List Char} (hword : isWord w = true)
    (hrest : ∀ d ∈ rest.head?, isWordChar d = false) :
    kinds (w ++ rest) = Lexeme.wordKind w :: kinds rest := by
  cases w with
  | nil => contradiction
  | cons c cs =>
    have hstart : isWordStart c = true := (Bool.and_eq_true_iff.mp hword).1
    rw [List.cons_append, kinds_cons (isBlank_of_isWordStart hstart), Lexeme.scan_word hword hrest]

/-- A word is one token, a keyword or a name. -/
theorem IsToken.word {w : List Char} (hword : isWord w = true) : IsToken w (Lexeme.wordKind w) :=
  fun _ hrest => kinds_word hword fun d hd => (hrest d hd).1

/-- ASCII letters make up a word. -/
theorem isWord_of_isAlpha {w : List Char} (hne : w ≠ []) (h : ∀ c ∈ w, c.isAlpha = true) :
    isWord w = true := by
  cases w with
  | nil => contradiction
  | cons c cs =>
    obtain ⟨hc, hcs⟩ := List.forall_mem_cons.mp h
    rw [isWord, isWordStart_of_isAlpha hc, Bool.true_and, List.all_eq_true]
    intro d hd
    rw [isWordChar, Bool.or_right_comm, Bool.or_eq_true]
    exact Or.inl (isWordStart_of_isAlpha (hcs d hd))

end Text

/-- The text of a keyword is a word in capital letters that names this keyword. -/
theorem Keyword.text_upper (k : Keyword) :
    k.text.toList ≠ [] ∧ k.text.toList.all Char.isUpper = true ∧
      k.text.toList.map Char.toUpper = k.text.toList ∧
      Keyword.all.find? (fun j => j.text.toList = k.text.toList) = some k := by
  cases k with
  | connective op => cases op <;> decide
  | bool b => cases b <;> decide
  | _ => decide

namespace Text

/-- A keyword may be written in any case. -/
theorem IsToken.keyword {w : List Char} {k : Keyword} (h : w.map Char.toUpper = k.text.toList) :
    IsToken w (.keyword k) := by
  obtain ⟨hne, hupper, -, hfind⟩ := k.text_upper
  rw [← h] at hne hupper
  have hword : isWord w = true := by
    apply isWord_of_isAlpha (mt List.map_eq_nil_iff.mpr hne)
    intro c hc
    exact isAlpha_of_isUpper_toUpper (List.all_eq_true.mp hupper _ (List.mem_map_of_mem hc))
  have hkind : Lexeme.wordKind w = .keyword k := by
    rw [Lexeme.wordKind, Keyword.ofWord?, h, hfind]
  rw [← hkind]
  exact IsToken.word hword

/-- A point is one token, whatever follows. -/
theorem kinds_dot (rest : List Char) : kinds ('.' :: rest) = .dot :: kinds rest := by
  have hscan : Lexeme.scan '.' rest = ⟨.dot, ['.'], rest⟩ := by
    cases rest <;> rfl
  rw [kinds_cons (by decide), hscan]

end Text

/-! ## Signs -/

/-- The characters with which signs begin. -/
def signMarks : List Char :=
  ['=', '!', '<', '>', ',', '.', '(', ')']

/-- The marks with which signs begin are no blanks. -/
theorem isBlank_of_mem_signMarks {c : Char} (hc : c ∈ signMarks) : Text.isBlank c = false := by
  have hall : signMarks.all (fun c => !Text.isBlank c) = true := by
    decide
  simpa using List.all_eq_true.mp hall c hc

namespace Lexeme

/-- Where a sign begins a sign is scanned. -/
theorem scan_of_mem_signMarks {c : Char} (hc : c ∈ signMarks) (cs : List Char) :
    scan c cs = sign c cs := by
  simp only [signMarks, List.mem_cons, List.not_mem_nil, or_false] at hc
  rcases hc with rfl | rfl | rfl | rfl | rfl | rfl | rfl | rfl <;> rfl

/-- A sign of one character begins with a mark. -/
theorem mem_signMarks_of_signKind {c : Char} (h : (signKind c).error? = none) : c ∈ signMarks := by
  unfold signKind at h
  split at h <;> first | decide | contradiction

/-- A sign of two characters begins with a mark. -/
theorem mem_signMarks_of_pairKind? {c d : Char} {k : Kind} (h : pairKind? c d = some k) :
    c ∈ signMarks := by
  unfold pairKind? at h
  split at h <;> first | decide | contradiction

/-- A break begins with no second half of a sign. -/
theorem pairKind?_of_breaks {d : Char} {ds : List Char} (h : Text.Breaks (d :: ds)) (c : Char) :
    pairKind? c d = none := by
  obtain ⟨-, -, -, hequal, hgreater⟩ := h d rfl
  unfold pairKind?
  split <;> first | rfl | contradiction

end Lexeme

namespace Text.IsToken

/-- A sign of one character is one token before a break. -/
theorem sign {c : Char} (h : (Lexeme.signKind c).error? = none) :
    IsToken [c] (Lexeme.signKind c) := by
  have hc := Lexeme.mem_signMarks_of_signKind h
  apply of_scan (isBlank_of_mem_signMarks hc)
  intro rest hrest
  rw [List.nil_append, Lexeme.scan_of_mem_signMarks hc]
  cases rest with
  | nil => rfl
  | cons d rest =>
    rw [Lexeme.sign, Lexeme.pairKind?_of_breaks hrest]

/-- A sign of two characters is one token. -/
theorem pair {c d : Char} {k : Kind} (h : Lexeme.pairKind? c d = some k) : IsToken [c, d] k := by
  have hc := Lexeme.mem_signMarks_of_pairKind? h
  apply of_scan (isBlank_of_mem_signMarks hc)
  intro rest _
  rw [List.cons_append, List.nil_append, Lexeme.scan_of_mem_signMarks hc, Lexeme.sign, h]

end Text.IsToken

end RowFilter
