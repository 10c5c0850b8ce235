import RowFilter.Proofs.Token.Writing

/-!
# Texts in front of other texts

A text without invalid tokens is cut into the same tokens when another text stands after it, as long
as the other text begins with a break: no token reaches across the seam. So a text that can be read
can be put in parentheses, or in front of a blank, without a look at what is in it.
-/

set_option autoImplicit false

namespace RowFilter

section Run

variable {p : Char → Bool} {rest : List Char}

/-- A run at the front of a text does not reach across a seam where the class ends. -/
theorem takeWhile_append_seam (cs : List Char) (hrest : ∀ c ∈ rest.head?, p c = false) :
    (cs ++ rest).takeWhile p = cs.takeWhile p ∧
      (cs ++ rest).dropWhile p = cs.dropWhile p ++ rest := by
  have hrun : ∀ c ∈ cs.takeWhile p, p c = true := List.all_eq_true.mp List.all_takeWhile
  have hstop : ∀ c ∈ (cs.dropWhile p ++ rest).head?, p c = false := by
    cases hdrop : cs.dropWhile p with
    | nil => exact hrest
    | cons d ds =>
      intro c hc
      cases hc
      have hhead := List.head?_dropWhile_not p cs
      rw [hdrop] at hhead
      simpa using hhead
  have hsplit : cs ++ rest = cs.takeWhile p ++ (cs.dropWhile p ++ rest) := by
    rw [← List.append_assoc, List.takeWhile_append_dropWhile]
  rw [hsplit]
  exact ⟨takeWhile_run hrun hstop, dropWhile_run hrun hstop⟩

end Run

namespace Lexeme

open RowFilter.Text

/-- The lexeme with another text after the text that is left. -/
def before (l : Lexeme) (rest : List Char) : Lexeme :=
  ⟨l.kind, l.text, l.rest ++ rest⟩

variable {c : Char} {cs rest : List Char}

/-- A closed string ends at its own quote. -/
theorem string_before (h : (string cs).kind.error? = none) (rest : List Char) :
    string (cs ++ rest) = (string cs).before rest := by
  have hsplit := Enclosed.ofString_append cs
  cases hclosed : (Enclosed.ofString cs).closed with
  | false => simp [string, hclosed, Kind.error?] at h
  | true =>
    rw [hclosed, cond_true, List.append_assoc] at hsplit
    have hread : Enclosed.ofString (cs ++ rest) =
        ⟨(Enclosed.ofString cs).body, true, (Enclosed.ofString cs).rest ++ rest⟩ := by
      rw [← Enclosed.ofString_of_closed hclosed]
      congr 1
      calc cs ++ rest
          = (Enclosed.ofString cs).body ++ (['\''] ++ (Enclosed.ofString cs).rest) ++ rest := by
            rw [hsplit]
        _ = _ := by simp
    simp [string, before, hread, hclosed, Enclosed.text]

/-- A closed name ends at its own quote. -/
theorem quotedName_before (h : (quotedName cs).kind.error? = none) (rest : List Char) :
    quotedName (cs ++ rest) = (quotedName cs).before rest := by
  have hsplit := Enclosed.ofName_append cs
  obtain ⟨hquote, hlineFeed⟩ := Enclosed.not_mem_body_ofName cs
  cases hclosed : (Enclosed.ofName cs).closed with
  | false => simp [quotedName, hclosed, Kind.error?] at h
  | true =>
    rw [hclosed, cond_true, List.append_assoc] at hsplit
    have hread : Enclosed.ofName (cs ++ rest) =
        ⟨(Enclosed.ofName cs).body, true, (Enclosed.ofName cs).rest ++ rest⟩ := by
      have hname := Enclosed.ofName_of_not_mem hquote hlineFeed (c := '"') (Or.inl rfl)
        ((Enclosed.ofName cs).rest ++ rest)
      simp only [beq_self_eq_true, if_true] at hname
      rw [← hname]
      congr 1
      calc cs ++ rest
          = (Enclosed.ofName cs).body ++ (['"'] ++ (Enclosed.ofName cs).rest) ++ rest := by
            rw [hsplit]
        _ = _ := by simp
    simp [quotedName, before, hread, hclosed, Enclosed.text]

/-- A break after a text does not change whether it begins with a digit. -/
theorem beginsWithDigit_before (cs : List Char) (hrest : Breaks rest) :
    beginsWithDigit (cs ++ rest) = beginsWithDigit cs := by
  cases cs with
  | cons c cs => rfl
  | nil =>
    cases rest with
    | nil => rfl
    | cons d ds => exact (hrest d rfl).2.1

/-- A break after a text does not change the digits after its point. -/
theorem fractionDigits_before (cs : List Char) (hrest : Breaks rest) :
    fractionDigits (cs ++ rest) = fractionDigits cs := by
  cases cs with
  | nil =>
    show fractionDigits rest = []
    unfold fractionDigits
    split
    · exact absurd rfl (hrest '.' rfl).2.2.1
    · rfl
  | cons c cs =>
    by_cases hpoint : c = '.'
    · subst hpoint
      exact (takeWhile_append_seam cs fun d hd => (hrest d hd).2.1).1
    · unfold fractionDigits
      split
      · rename_i heq
        exact absurd (List.cons.inj heq).1 hpoint
      · split
        · rename_i heq
          exact absurd (List.cons.inj heq).1 hpoint
        · rfl

/-- A number takes the same characters before a break. -/
theorem number_before (sign cs : List Char) (hrest : Breaks rest) :
    number sign (cs ++ rest) = (number sign cs).before rest := by
  have hstop : ∀ d ∈ rest.head?, d.isDigit = false := fun d hd => (hrest d hd).2.1
  obtain ⟨htake, hdrop⟩ := takeWhile_append_seam cs hstop
  simp only [number, htake, hdrop, fractionDigits_before _ hrest]
  cases hafter : cs.dropWhile Char.isDigit with
  | nil => rfl
  | cons d ds =>
    split
    · rfl
    · simp only [before, List.cons_append, List.drop_succ_cons, List.drop_zero]
      rw [(takeWhile_append_seam ds hstop).2]

/-- A word takes the same characters before a break. -/
theorem word_before (c : Char) (cs : List Char) (hrest : Breaks rest) :
    word c (cs ++ rest) = (word c cs).before rest := by
  obtain ⟨htake, hdrop⟩ := takeWhile_append_seam cs fun d hd => (hrest d hd).1
  rw [word, word, before, htake, hdrop]

/-- A sign takes the same characters before a break. -/
theorem sign_before (c : Char) (cs : List Char) (hrest : Breaks rest) :
    sign c (cs ++ rest) = (sign c cs).before rest := by
  cases cs with
  | nil =>
    cases rest with
    | nil => rfl
    | cons d ds =>
      simp only [List.nil_append, sign, pairKind?_of_breaks hrest]
      rfl
  | cons d ds =>
    rw [List.cons_append, sign, sign]
    cases pairKind? c d <;> rfl

/-- A valid lexeme does not reach across a break. -/
theorem scan_before (h : (scan c cs).kind.error? = none) (hrest : Breaks rest) :
    scan c (cs ++ rest) = (scan c cs).before rest := by
  unfold scan at h ⊢
  rw [beginsWithDigit_before cs hrest]
  split
  · rename_i hquote
    rw [if_pos hquote] at h
    exact string_before h rest
  rename_i hquote
  rw [if_neg hquote] at h
  split
  · rename_i hdouble
    rw [if_pos hdouble] at h
    exact quotedName_before h rest
  split
  · exact number_before [] (c :: cs) hrest
  split
  · exact number_before [c] cs hrest
  split
  · exact word_before c cs hrest
  · exact sign_before c cs hrest

end Lexeme

/-- Tokens do not reach across a seam: a text without invalid tokens keeps them in front of any text
that begins with a break. The induction is on the length of the text, lexeme by lexeme. -/
theorem Text.kinds_append {cs rest : List Char} (hvalid : ∀ k ∈ kinds cs, k.error? = none)
    (hrest : Breaks rest) : kinds (cs ++ rest) = kinds cs ++ kinds rest := by
  induction hlength : cs.length using Nat.strongRecOn generalizing cs with
  | ind n ih =>
    subst hlength
    cases cs with
    | nil => rw [kinds_nil, List.nil_append, List.nil_append]
    | cons c cs =>
      rw [List.cons_append]
      cases hblank : isBlank c with
      | true =>
        rw [kinds_of_isBlank hblank] at hvalid ⊢
        rw [kinds_of_isBlank hblank]
        exact ih cs.length (Nat.lt_succ_self _) hvalid rfl
      | false =>
        rw [kinds_cons hblank] at hvalid ⊢
        obtain ⟨hkind, hmore⟩ := List.forall_mem_cons.mp hvalid
        rw [kinds_cons hblank, Lexeme.scan_before hkind hrest, List.cons_append]
        exact congrArg _ (ih _ (Lexeme.length_scan_rest_lt c cs) hmore rfl)

/-- A text without invalid tokens spells its own kinds. -/
theorem Spells.of_valid {cs : List Char} (h : ∀ k ∈ Text.kinds cs, k.error? = none) :
    Spells True cs (Text.kinds cs) :=
  of_read fun _ hrest => Text.kinds_append h hrest.breaks

end RowFilter
