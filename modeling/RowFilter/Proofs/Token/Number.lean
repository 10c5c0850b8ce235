import Mathlib.Algebra.Group.Int.Defs
import RowFilter.Decimal.Printer
import RowFilter.Proofs.Token.Word

/-!
# Numbers

An integer spells an integer if it is in range. A decimal spells itself, scale included, as long as
the scale is positive, since then its plain form has a point with digits on both sides. Without a
point the plain form of a decimal is an integer.
-/

set_option autoImplicit false

namespace RowFilter

/-! ## Digits -/

namespace Text

/-- The digits of a number are ASCII digits. -/
theorem isDigit_of_mem_natDigits {n : Nat} {c : Char} (h : c ∈ natDigits n) : c.isDigit = true :=
  Nat.isDigit_of_mem_toDigits (by decide) (by decide) h

/-- Every number has a digit. -/
theorem natDigits_ne_nil (n : Nat) : natDigits n ≠ [] :=
  Nat.toDigits_ne_nil

/-- The digits behind go on from the value of those in front. -/
theorem digitsValue_append (ds es : List Char) :
    digitsValue (ds ++ es) = Nat.ofDigitChars 10 es (digitsValue ds) :=
  Nat.ofDigitChars_append 0

/-- The sign and the digits of an integer denote it. -/
theorem signed_minusSign (n : Int) : signed (minusSign n == ['-']) n.natAbs = n := by
  unfold minusSign
  split
  · rename_i h
    show -(n.natAbs : Int) = n
    omega
  · rename_i h
    show (n.natAbs : Int) = n
    omega

/-- The integers that fit in 64 bits lie between the two limits. -/
theorem fitsInt64_iff {n : Int} : fitsInt64 n = true ↔ -2 ^ 63 ≤ n ∧ n ≤ 2 ^ 63 - 1 := by
  have hmin : Int64.minValue.toInt = -2 ^ 63 := rfl
  have hmax : Int64.maxValue.toInt = 2 ^ 63 - 1 := rfl
  rw [fitsInt64, Bool.and_eq_true, decide_eq_true_iff, decide_eq_true_iff, hmin, hmax]

/-- An integer of 64 bits fits in them. -/
theorem fitsInt64_toInt (n : Int64) : fitsInt64 n.toInt = true :=
  fitsInt64_iff.mpr ⟨n.le_toInt, Int.le_sub_one_of_lt n.toInt_lt⟩

end Text

namespace Decimal

/-- Zeros are digits. -/
theorem isDigit_of_mem_zeros {n : Nat} {c : Char} (h : c ∈ zeros n) : c.isDigit = true := by
  rw [zeros, List.mem_replicate] at h
  rw [h.2]
  rfl

/-- Leading zeros do not count. -/
theorem digitsValue_zeros_append (n : Nat) (ds : List Char) :
    Text.digitsValue (zeros n ++ ds) = Text.digitsValue ds := by
  have hzeros : Text.digitsValue (zeros n) = 0 := by
    rw [Text.digitsValue, zeros, Nat.ofDigitChars_replicate_zero, Nat.mul_zero]
  rw [Text.digitsValue_append, hzeros, Text.digitsValue]

/-- Each zero at the end multiplies the value by ten. -/
theorem digitsValue_append_zeros (n : Nat) (ds : List Char) :
    (Text.digitsValue (ds ++ zeros n) : Int) = Text.digitsValue ds * tenTo n := by
  rw [Text.digitsValue_append, zeros, Nat.ofDigitChars_replicate_zero, Nat.mul_comm,
    Int.natCast_mul, Int.natCast_pow]
  rfl

/-- Powers of ten are positive. -/
theorem tenTo_pos (exponent : Nat) : 0 < tenTo exponent :=
  Int.pow_pos (by decide)

/-- The integer that the plain form of a decimal shows if the scale is not positive. -/
def whole (d : Decimal) : Int :=
  d.unscaled * tenTo (-d.scale).toNat

/-- The integer that is shown has the sign of the decimal. -/
theorem whole_neg_iff {d : Decimal} : d.whole < 0 ↔ d.unscaled < 0 := by
  rw [whole]
  constructor
  · intro h
    exact Int.neg_of_mul_neg_left h (tenTo_pos _)
  · intro h
    exact Int.mul_neg_of_neg_of_pos h (tenTo_pos _)

/-- The integer that is shown has the digits of the decimal and as many zeros as the scale asks for.
-/
theorem natAbs_whole (d : Decimal) :
    (d.whole.natAbs : Int) = d.unscaled.natAbs * tenTo (-d.scale).toNat := by
  have habs : ((tenTo (-d.scale).toNat).natAbs : Int) = tenTo (-d.scale).toNat :=
    Int.natAbs_of_nonneg (Int.le_of_lt (tenTo_pos _))
  rw [whole, Int.natAbs_mul, Int.natCast_mul, habs]

/-- Without places the plain form is a sign with digits after it, and no point. -/
theorem plain_of_scale_nonpos {d : Decimal} (hscale : d.scale ≤ 0) :
    ∃ ds, d.plain.toList = Text.minusSign d.whole ++ ds ∧ (∀ c ∈ ds, c.isDigit = true) ∧
      ds ≠ [] ∧ Text.digitsValue ds = d.whole.natAbs := by
  refine ⟨d.digits ++ zeros (-d.scale).toNat, ?_, ?_, ?_, ?_⟩
  · rw [plain, String.toList_ofList, if_pos hscale]
    simp only [Text.minusSign, whole_neg_iff]
  · intro c hc
    rcases List.mem_append.mp hc with hdigit | hzero
    · exact Text.isDigit_of_mem_natDigits hdigit
    · exact isDigit_of_mem_zeros hzero
  · exact List.append_ne_nil_of_left_ne_nil (Text.natDigits_ne_nil _) _
  · apply Int.natCast_inj.mp
    rw [digitsValue_append_zeros, digits, Text.digitsValue_natDigits, natAbs_whole]

/-- With a positive scale the plain form has digits on both sides of a point, as many on the right
as the scale says. -/
theorem plain_of_scale_pos {d : Decimal} (hscale : 0 < d.scale) :
    ∃ ds fs, d.plain.toList = Text.minusSign d.unscaled ++ (ds ++ '.' :: fs) ∧
      (∀ c ∈ ds ++ fs, c.isDigit = true) ∧ ds ≠ [] ∧ fs.length = d.scale ∧
      Text.digitsValue (ds ++ fs) = d.unscaled.natAbs := by
  let padded := zeros (d.scale.toNat + 1 - d.digits.length) ++ d.digits
  have hlength : d.scale.toNat + 1 ≤ padded.length := by
    simp only [padded, List.length_append, zeros, List.length_replicate]
    omega
  refine ⟨padded.take (padded.length - d.scale.toNat), padded.drop (padded.length - d.scale.toNat),
    ?_, ?_, ?_, ?_, ?_⟩
  · rw [plain, String.toList_ofList, if_neg (by omega), placePoint, List.append_assoc,
      List.singleton_append]
  · intro c hc
    rw [List.take_append_drop] at hc
    rcases List.mem_append.mp hc with hzero | hdigit
    · exact isDigit_of_mem_zeros hzero
    · exact Text.isDigit_of_mem_natDigits hdigit
  · apply List.ne_nil_of_length_pos
    rw [List.length_take]
    omega
  · rw [List.length_drop]
    omega
  · rw [List.take_append_drop, digitsValue_zeros_append]
    exact Text.digitsValue_natDigits _

end Decimal

/-! ## Lexemes -/

namespace Lexeme

variable {sign ds fs rest : List Char}

/-- A sign and digits with no digit and no point after them are an integer. -/
theorem number_of_digits (hds : ∀ c ∈ ds, c.isDigit = true)
    (hrest : ∀ c ∈ rest.head?, c.isDigit = false ∧ c ≠ '.') :
    number sign (ds ++ rest) = ⟨integerKind (sign == ['-']) (sign ++ ds) ds, sign ++ ds, rest⟩ := by
  have hstop : ∀ c ∈ rest.head?, c.isDigit = false := fun c hc => (hrest c hc).1
  have hfraction : fractionDigits rest = [] := by
    unfold fractionDigits
    split
    · exact absurd rfl (hrest '.' rfl).2
    · rfl
  simp only [number, takeWhile_run hds hstop, dropWhile_run hds hstop, hfraction]
  rfl

/-- A sign, digits, a point and more digits with no digit after them are a decimal. -/
theorem number_of_point (hds : ∀ c ∈ ds, c.isDigit = true) (hfs : ∀ c ∈ fs, c.isDigit = true)
    (hne : fs ≠ []) (hrest : ∀ c ∈ rest.head?, c.isDigit = false) :
    number sign (ds ++ '.' :: (fs ++ rest)) =
      ⟨.decimal ⟨Text.signed (sign == ['-']) (Text.digitsValue (ds ++ fs)), fs.length⟩,
        sign ++ ds ++ '.' :: fs, rest⟩ := by
  have hstop : ∀ c ∈ ('.' :: (fs ++ rest)).head?, c.isDigit = false := by
    simp
  have hfraction : fractionDigits ('.' :: (fs ++ rest)) = fs := takeWhile_run hfs hrest
  simp only [number, takeWhile_run hds hstop, dropWhile_run hds hstop, hfraction, List.isEmpty_iff,
    hne, if_false, List.drop_succ_cons, List.drop_zero, dropWhile_run hfs hrest]

/-- Where a digit stands a number takes at least that digit. -/
theorem takeWhile_isDigit_ne_nil (hdigit : beginsWithDigit ds = true) :
    ds.takeWhile Char.isDigit ≠ [] := by
  cases ds with
  | nil => contradiction
  | cons d ds =>
    have hd : d.isDigit = true := hdigit
    simp [hd]

/-- What a number takes after its point are digits. -/
theorem isDigit_of_mem_fractionDigits {c : Char} (h : c ∈ fractionDigits ds) :
    c.isDigit = true := by
  unfold fractionDigits at h
  split at h
  · exact List.all_eq_true.mp List.all_takeWhile c h
  · contradiction

/-- A text that begins with a digit, perhaps after a sign, begins with no blank. -/
theorem exists_cons_of_sign (hsign : sign ∈ signs) (hdigit : beginsWithDigit ds = true) :
    ∃ c cs, sign ++ ds = c :: cs ∧ Text.isBlank c = false := by
  simp only [signs, List.mem_cons, List.not_mem_nil, or_false] at hsign
  rcases hsign with rfl | rfl | rfl
  · cases ds with
    | nil => contradiction
    | cons d ds => exact ⟨d, ds, rfl, Text.isBlank_of_isDigit hdigit⟩
  · exact ⟨'-', ds, rfl, by decide⟩
  · exact ⟨'+', ds, rfl, by decide⟩

/-- A digit, perhaps after a sign, begins a number. -/
theorem scan_number {c : Char} {cs : List Char} (hsign : sign ∈ signs)
    (hdigit : beginsWithDigit ds = true) (hsplit : c :: cs = sign ++ ds) :
    scan c cs = number sign ds := by
  simp only [signs, List.mem_cons, List.not_mem_nil, or_false] at hsign
  rcases hsign with rfl | rfl | rfl
  · rw [List.nil_append] at hsplit
    subst hsplit
    have hc : c.isDigit = true := hdigit
    have hquote : c ≠ '\'' := by
      rintro rfl
      contradiction
    have hdouble : c ≠ '"' := by
      rintro rfl
      contradiction
    simp [scan, hquote, hdouble, hc]
  · cases hsplit
    simp [scan, hdigit]
  · cases hsplit
    simp [scan, hdigit]

end Lexeme

namespace Text

/-- The sign that is written is one that a number may have. -/
theorem minusSign_mem_signs (n : Int) : minusSign n ∈ Lexeme.signs := by
  unfold minusSign
  split <;> decide

/-- A text that begins with digits, perhaps after a sign, begins with a number. -/
theorem kinds_number {sign ds : List Char} (hsign : sign ∈ Lexeme.signs)
    (hds : ∀ c ∈ ds, c.isDigit = true) (hne : ds ≠ []) (rest : List Char) :
    kinds (sign ++ (ds ++ rest)) =
      (Lexeme.number sign (ds ++ rest)).kind :: kinds (Lexeme.number sign (ds ++ rest)).rest := by
  obtain ⟨d, ds, rfl⟩ := List.exists_cons_of_ne_nil hne
  have hdigit : Lexeme.beginsWithDigit (d :: ds ++ rest) = true := hds d List.mem_cons_self
  obtain ⟨c, cs, hsplit, hblank⟩ := Lexeme.exists_cons_of_sign hsign hdigit
  rw [hsplit, kinds_cons hblank, Lexeme.scan_number hsign hdigit hsplit.symm]

namespace IsToken

/-- Digits with a sign that a number may have are one token, an integer or one out of range. -/
theorem integer {sign ds : List Char} (hsign : sign ∈ Lexeme.signs)
    (hds : ∀ c ∈ ds, c.isDigit = true) (hne : ds ≠ []) :
    IsToken (sign ++ ds) (Lexeme.integerKind (sign == ['-']) (sign ++ ds) ds) := by
  intro rest hrest
  have hstop : ∀ c ∈ rest.head?, c.isDigit = false ∧ c ≠ '.' := by
    intro c hc
    obtain ⟨-, hdigit, hpoint, -⟩ := hrest c hc
    exact ⟨hdigit, hpoint⟩
  rw [List.append_assoc, kinds_number hsign hds hne, Lexeme.number_of_digits hds hstop]

/-- Digits with a sign, a point and more digits are one token, a decimal. -/
theorem decimal {sign ds fs : List Char} (hsign : sign ∈ Lexeme.signs)
    (hds : ∀ c ∈ ds, c.isDigit = true) (hne : ds ≠ []) (hfs : ∀ c ∈ fs, c.isDigit = true)
    (hfsNe : fs ≠ []) :
    IsToken (sign ++ ds ++ '.' :: fs)
      (.decimal ⟨signed (sign == ['-']) (digitsValue (ds ++ fs)), fs.length⟩) := by
  intro rest hrest
  have hstop : ∀ c ∈ rest.head?, c.isDigit = false := fun c hc => (hrest c hc).2.1
  rw [List.append_assoc, List.append_assoc, List.cons_append, kinds_number hsign hds hne,
    Lexeme.number_of_point hds hfs hfsNe hstop]

end IsToken

end Text

/-! ## Spelling -/

namespace Spells

/-- Digits with the sign of a number spell the number that they denote, if it is in range. -/
theorem integer {n : Int} {ds : List Char} (hds : ∀ c ∈ ds, c.isDigit = true) (hne : ds ≠ [])
    (hvalue : Text.digitsValue ds = n.natAbs) :
    Spells (Text.fitsInt64 n = true) (Text.minusSign n ++ ds) [.integer (Int64.ofInt n)] := by
  have htoken := Text.IsToken.integer (Text.minusSign_mem_signs n) hds hne
  rw [Lexeme.integerKind, hvalue, Text.signed_minusSign] at htoken
  constructor
  · intro hrange rest hrest
    rw [htoken rest hrest.breaks, if_pos hrange]
    rfl
  · intro hrange rest hrest
    rw [htoken rest hrest.breaks, if_neg hrange]
    exact ⟨_, List.mem_cons_self⟩

/-- A decimal with another scale is read as an integer. -/
theorem wholeDecimal {d : Decimal} (hscale : d.scale ≤ 0) :
    Spells (Text.fitsInt64 d.whole = true) d.plain.toList
      [.integer (Int64.ofInt d.whole)] := by
  obtain ⟨ds, hplain, hds, hne, hvalue⟩ := Decimal.plain_of_scale_nonpos hscale
  rw [hplain]
  exact integer hds hne hvalue

end Spells

end RowFilter
