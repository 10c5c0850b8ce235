import Mathlib.Data.List.TakeWhile
import RowFilter.Decimal.Reader
import RowFilter.Proofs.Grammar.Phrase
import RowFilter.Proofs.Literal.Order
import RowFilter.Proofs.Token.Number

/-!
# Reading the encoded form of a decimal

The encoded form of a decimal has three notations: the plain one, digits with a point after the
first one and a negative exponent, and an integer with a positive exponent. The main statement is
that every notation is read back: the exponent and the places after the point make up the scale
again. Two kinds of decimals come back with another scale than they had. Zero is written without its
places, and an integer with up to fifteen zeros at its end is written with these zeros, which then
belong to the digits.
-/

set_option autoImplicit false

namespace RowFilter.Decimal

/-! ## Exponents -/

/-- More digits make no number smaller. -/
theorem le_ofDigitChars (ds : List Char) (value : Nat) : value ≤ Nat.ofDigitChars 10 ds value := by
  rw [Nat.ofDigitChars_eq_ofDigitChars_zero]
  have hscaled : value ≤ 10 ^ ds.length * value :=
    Nat.le_mul_of_pos_left value (Nat.pow_pos (by decide))
  exact Nat.le_trans hscaled (Nat.le_add_right _ _)

/-- Digits are read as an exponent if the number that they denote is in range. The bound is checked
after every digit, and the numbers on the way are not larger than the last one. -/
theorem exponentDigits_eq_ok_iff {negative : Bool} {ds : List Char}
    (hds : ∀ c ∈ ds, c.isDigit = true) {value : Nat} (hvalue : value ≤ exponentBound negative)
    {n : Int} :
    exponentDigits negative value ds = .ok n ↔
      Nat.ofDigitChars 10 ds value ≤ exponentBound negative ∧
        n = Text.signed negative (Nat.ofDigitChars 10 ds value) := by
  induction ds generalizing value with
  | nil => simp [exponentDigits, hvalue, eq_comm]
  | cons c cs ih =>
    obtain ⟨hc, hcs⟩ := List.forall_mem_cons.mp hds
    have hnext : Nat.ofDigitChars 10 (c :: cs) value =
        Nat.ofDigitChars 10 cs (Text.digitsValue [c] + 10 * value) := by
      simp [Text.digitsValue, Nat.ofDigitChars_cons, Nat.add_comm]
    rw [exponentDigits, if_pos hc, hnext]
    by_cases hrange : Text.digitsValue [c] + 10 * value ≤ exponentBound negative
    · simp only [if_pos hrange]
      exact ih hcs hrange
    · simp only [if_neg hrange, reduceCtorEq, false_iff, not_and]
      intro hlast
      exact absurd (Nat.le_trans (le_ofDigitChars cs _) hlast) hrange

/-- A sign and digits are read as an exponent exactly if they stay within the bound for this sign.
-/
theorem readExponent_eq_ok_iff (negative : Bool) {n : Nat} {m : Int} :
    readExponent ((if negative then '-' else '+') :: Text.natDigits n) = .ok m ↔
      n ≤ exponentBound negative ∧ m = Text.signed negative n := by
  obtain ⟨d, ds, hdigits⟩ := List.exists_cons_of_ne_nil (Text.natDigits_ne_nil n)
  have hread : readExponent ((if negative then '-' else '+') :: Text.natDigits n) =
      exponentDigits negative 0 (Text.natDigits n) := by
    rw [hdigits]
    cases negative <;> rfl
  rw [hread, exponentDigits_eq_ok_iff (fun _ => Text.isDigit_of_mem_natDigits) (Nat.zero_le _),
    ← Text.digitsValue, Text.digitsValue_natDigits]

/-! ## Integers with a point -/

/-- No digit is a mark. -/
theorem marks_of_isDigit {c : Char} (h : c.isDigit = true) :
    isExponentMark c = false ∧ c ≠ '.' ∧ c ≠ '_' ∧ c ≠ '+' ∧ c ≠ '-' := by
  have hne (d : Char) (hd : d.isDigit = false) : c ≠ d := by
    rintro rfl
    rw [h] at hd
    contradiction
  refine ⟨?_, hne _ rfl, hne _ rfl, hne _ rfl, hne _ rfl⟩
  rw [isExponentMark, Bool.or_eq_false_iff, beq_eq_false_iff_ne, beq_eq_false_iff_ne]
  exact ⟨hne _ rfl, hne _ rfl⟩

/-- There is no mark in a sign. -/
theorem marks_of_mem_sign {sign : List Char} (hsign : sign ∈ Lexeme.signs) {c : Char}
    (h : c ∈ sign) : isExponentMark c = false ∧ c ≠ '.' := by
  have hall : Lexeme.signs.all (fun sign => sign.all fun c => !isExponentMark c && c != '.') =
      true := by
    decide
  simpa using List.all_eq_true.mp (List.all_eq_true.mp hall sign hsign) c h

/-- Digits alone are read as the number they denote. -/
theorem readDigits_of_digits (negative : Bool) {ds : List Char} (hds : ∀ c ∈ ds, c.isDigit = true)
    (hne : ds ≠ []) :
    readDigits negative ds = .ok (Text.signed negative (Text.digitsValue ds)) := by
  have hhead : (ds.head? == some '_') = false := by
    rw [beq_eq_false_iff_ne]
    intro hhead
    exact (marks_of_isDigit (hds _ (List.mem_of_mem_head? hhead))).2.2.1 rfl
  have hall : (ds.all fun c => c.isDigit || c == '_') = true := by
    rw [List.all_eq_true]
    intro c hc
    rw [hds c hc, Bool.true_or]
  have hfilter : ds.filter (· != '_') = ds := by
    rw [List.filter_eq_self]
    intro c hc
    rw [bne_iff_ne]
    exact (marks_of_isDigit (hds c hc)).2.2.1
  rw [readDigits, if_neg (mt List.isEmpty_iff.mp hne), hhead, hall, hfilter]
  rfl

/-- Digits are read as an integer with any sign before them. -/
theorem readInteger_of_digits {sign ds : List Char} (hsign : sign ∈ Lexeme.signs)
    (hds : ∀ c ∈ ds, c.isDigit = true) (hne : ds ≠ []) :
    readInteger (sign ++ ds) = .ok (Text.signed (sign == ['-']) (Text.digitsValue ds)) := by
  simp only [Lexeme.signs, List.mem_cons, List.not_mem_nil, or_false] at hsign
  rcases hsign with rfl | rfl | rfl
  · have hunsigned : readInteger ds = readDigits false ds := by
      obtain ⟨d, ds, rfl⟩ := List.exists_cons_of_ne_nil hne
      obtain ⟨-, -, -, hplus, hminus⟩ := marks_of_isDigit (hds d List.mem_cons_self)
      unfold readInteger
      split
      · rename_i heq
        cases heq
        exact absurd rfl hminus
      · rename_i heq
        cases heq
        exact absurd rfl hplus
      · rfl
    exact hunsigned.trans (readDigits_of_digits false hds hne)
  · exact readDigits_of_digits true hds hne
  · exact readDigits_of_digits false hds hne

/-- The text has no exponent and shows the integer with so many places after the point. -/
structure Shows (base : List Char) (n : Int) (places : Nat) : Prop where
  unmarked : ∀ c ∈ base, isExponentMark c = false
  nonempty : base ≠ []
  integer : readInteger (splitPoint base).1 = .ok n
  places : (splitPoint base).2 = places

section

variable {sign ds fs : List Char}

/-- A sign and digits show an integer without places. -/
theorem shows_of_digits (hsign : sign ∈ Lexeme.signs) (hds : ∀ c ∈ ds, c.isDigit = true)
    (hne : ds ≠ []) :
    Shows (sign ++ ds) (Text.signed (sign == ['-']) (Text.digitsValue ds)) 0 := by
  have hmarks : ∀ c ∈ sign ++ ds, isExponentMark c = false ∧ c ≠ '.' := by
    intro c hc
    rcases List.mem_append.mp hc with hc | hdigit
    · exact marks_of_mem_sign hsign hc
    · exact ⟨(marks_of_isDigit (hds c hdigit)).1, (marks_of_isDigit (hds c hdigit)).2.1⟩
  have hsplit : splitPoint (sign ++ ds) = (sign ++ ds, 0) := by
    have hdrop : (sign ++ ds).dropWhile (· != '.') = [] := by
      rw [List.dropWhile_eq_nil_iff]
      intro c hc
      exact bne_iff_ne.mpr (hmarks c hc).2
    rw [splitPoint, hdrop]
  refine ⟨fun c hc => (hmarks c hc).1, List.append_ne_nil_of_right_ne_nil _ hne, ?_, ?_⟩
  · rw [hsplit]
    exact readInteger_of_digits hsign hds hne
  · rw [hsplit]

/-- Digits with a point among them show an integer with as many places as digits follow the point.
-/
theorem shows_of_point (hsign : sign ∈ Lexeme.signs) (hdigits : ∀ c ∈ ds ++ fs, c.isDigit = true)
    (hne : ds ≠ []) :
    Shows (sign ++ (ds ++ '.' :: fs)) (Text.signed (sign == ['-']) (Text.digitsValue (ds ++ fs)))
      fs.length := by
  have hbefore : ∀ c ∈ sign ++ ds, isExponentMark c = false ∧ c ≠ '.' := by
    intro c hc
    rcases List.mem_append.mp hc with hc | hdigit
    · exact marks_of_mem_sign hsign hc
    · have hmarks := marks_of_isDigit (hdigits c (List.mem_append_left _ hdigit))
      exact ⟨hmarks.1, hmarks.2.1⟩
  have hafter : ∀ c ∈ fs, isExponentMark c = false ∧ c ≠ '_' := by
    intro c hc
    have hmarks := marks_of_isDigit (hdigits c (List.mem_append_right _ hc))
    exact ⟨hmarks.1, hmarks.2.2.1⟩
  have hsplit : splitPoint (sign ++ (ds ++ '.' :: fs)) = (sign ++ (ds ++ fs), fs.length) := by
    have hrun : ∀ c ∈ sign ++ ds, (c != '.') = true := fun c hc => bne_iff_ne.mpr (hbefore c hc).2
    have hstop : ∀ c ∈ ('.' :: fs).head?, (c != '.') = false := by
      simp
    have hfilter : fs.filter (· != '_') = fs := by
      rw [List.filter_eq_self]
      intro c hc
      exact bne_iff_ne.mpr (hafter c hc).2
    rw [splitPoint, ← List.append_assoc, dropWhile_run hrun hstop, takeWhile_run hrun hstop]
    simp only [hfilter, List.append_assoc]
  refine ⟨?_, ?_, ?_, ?_⟩
  · intro c hc
    rw [← List.append_assoc] at hc
    rcases List.mem_append.mp hc with hleft | hright
    · exact (hbefore c hleft).1
    · rcases List.mem_cons.mp hright with rfl | hfraction
      · rfl
      · exact (hafter c hfraction).1
  · exact List.append_ne_nil_of_right_ne_nil _ (List.append_ne_nil_of_left_ne_nil hne _)
  · rw [hsplit]
    exact readInteger_of_digits hsign hdigits (List.append_ne_nil_of_left_ne_nil hne _)
  · rw [hsplit]

end

section

variable {n : Int} {ds fs : List Char}

/-- With a minus sign where it is due, digits show the integer of this magnitude. -/
theorem shows_of_natAbs (hds : ∀ c ∈ ds, c.isDigit = true) (hne : ds ≠ [])
    (hvalue : Text.digitsValue ds = n.natAbs) : Shows (Text.minusSign n ++ ds) n 0 := by
  have hshows := shows_of_digits (Text.minusSign_mem_signs n) hds hne
  rwa [hvalue, Text.signed_minusSign] at hshows

/-- The digits of an integer, with a point among them, show the integer with these places. -/
theorem shows_of_natAbs_point (hdigits : ∀ c ∈ ds ++ fs, c.isDigit = true) (hne : ds ≠ [])
    (hvalue : Text.digitsValue (ds ++ fs) = n.natAbs) :
    Shows (Text.minusSign n ++ (ds ++ '.' :: fs)) n fs.length := by
  have hshows := shows_of_point (Text.minusSign_mem_signs n) hdigits hne
  rwa [hvalue, Text.signed_minusSign] at hshows

end

/-! ## Whole texts -/

/-- A text is read as a decimal exactly if its exponent, its digits and the resulting scale are in
order. -/
theorem ofText_eq_ok_iff {text : String} {e : Decimal} :
    ofText text = .ok e ↔ ∃ base exponent, splitExponent text.toList = .ok (base, exponent) ∧
      base ≠ [] ∧ readInteger (splitPoint base).1 = .ok e.unscaled ∧
      e.scale = (splitPoint base).2 - exponent ∧ scaleInRange e.scale = true := by
  rw [ofText, bind_eq_ok]
  constructor
  · rintro ⟨⟨base, exponent⟩, hsplit, h⟩
    simp only at h
    split at h
    · contradiction
    · rename_i hne
      split at h
      · contradiction
      · rename_i hrange
        obtain ⟨n, hn, h⟩ := bind_eq_ok.mp h
        cases h
        exact ⟨base, exponent, hsplit, mt List.isEmpty_iff.mpr hne, hn, rfl, by simpa using hrange⟩
  · rintro ⟨base, exponent, hsplit, hne, hn, hscale, hrange⟩
    refine ⟨(base, exponent), hsplit, ?_⟩
    rw [hscale] at hrange
    simp only [List.isEmpty_iff, hne, hrange, Bool.not_true, Bool.false_eq_true, if_false]
    refine bind_eq_ok.mpr ⟨e.unscaled, hn, ?_⟩
    rw [← hscale]
    rfl

/-- A text without an exponent is read as what it shows. -/
theorem ofText_eq_ok_iff_of_shows {base : List Char} {n : Int} {places : Nat}
    (h : Shows base n places) {e : Decimal} :
    ofText (String.ofList base) = .ok e ↔ e = ⟨n, places⟩ ∧ scaleInRange places = true := by
  have hsplit : splitExponent base = .ok (base, 0) := by
    have hdrop : base.dropWhile (fun c => !isExponentMark c) = [] := by
      rw [List.dropWhile_eq_nil_iff]
      intro c hc
      rw [h.unmarked c hc]
      rfl
    rw [splitExponent, hdrop]
  obtain ⟨unscaled, scale⟩ := e
  rw [ofText_eq_ok_iff, String.toList_ofList, hsplit]
  constructor
  · rintro ⟨_, _, heq, -, hn, hscale, hrange⟩
    cases heq
    rw [h.integer] at hn
    cases hn
    rw [h.places, Int.sub_zero] at hscale
    simp only at hscale
    subst hscale
    exact ⟨rfl, hrange⟩
  · rintro ⟨heq, hrange⟩
    cases heq
    refine ⟨base, 0, rfl, h.nonempty, h.integer, ?_, hrange⟩
    rw [h.places, Int.sub_zero]

/-- A text with an exponent is read as what stands before it, with the exponent taken from the
scale. -/
theorem ofText_eq_ok_iff_of_exponent {base after : List Char} {n : Int} {places : Nat}
    (h : Shows base n places) {mark : Char} (hmark : isExponentMark mark = true) {exponent : Int}
    {inRange : Prop} (hafter : ∀ m, readExponent after = .ok m ↔ inRange ∧ m = exponent)
    (hscale : scaleInRange (places - exponent) = true → inRange) {e : Decimal} :
    ofText (String.ofList (base ++ mark :: after)) = .ok e ↔
      e = ⟨n, places - exponent⟩ ∧ scaleInRange (places - exponent) = true := by
  have hrun : ∀ c ∈ base, (!isExponentMark c) = true := by
    intro c hc
    rw [h.unmarked c hc]
    rfl
  have hstop : ∀ c ∈ (mark :: after).head?, (!isExponentMark c) = false := by
    intro c hc
    cases hc
    rw [hmark]
    rfl
  -- there is no mark in the base, so the text is split at the one behind it
  have hsplit : splitExponent (base ++ mark :: after) =
      (readExponent after).map fun m => (base, m) := by
    rw [splitExponent, dropWhile_run hrun hstop, takeWhile_run hrun hstop]
  obtain ⟨unscaled, scale⟩ := e
  rw [ofText_eq_ok_iff, String.toList_ofList, hsplit]
  constructor
  · rintro ⟨_, m, heq, -, hn, hplaces, hrange⟩
    cases hread : readExponent after with
    | error fault =>
      rw [hread] at heq
      contradiction
    | ok m' =>
      rw [hread] at heq
      simp only [Except.map, Except.ok.injEq, Prod.mk.injEq] at heq
      obtain ⟨rfl, rfl⟩ := heq
      obtain ⟨-, rfl⟩ := (hafter _).mp hread
      rw [h.integer] at hn
      cases hn
      rw [h.places] at hplaces
      simp only at hplaces
      subst hplaces
      exact ⟨rfl, hrange⟩
  · rintro ⟨heq, hrange⟩
    cases heq
    refine ⟨base, exponent, ?_, h.nonempty, h.integer, ?_, hrange⟩
    · rw [(hafter exponent).mpr ⟨hscale hrange, rfl⟩]
      rfl
    · rw [h.places]

/-! ## The three notations -/

/-- The decimal that the encoded form is read as. -/
def reread (d : Decimal) : Decimal :=
  if d.unscaled = 0 then ⟨0, 0⟩
  else if 0 < d.scale ∨ trailingZeroLimit < -d.scale then d
  else ⟨d.whole, 0⟩

/-- The encoded form can be read: it is that of zero, or the scale is in its range. -/
def Encodable (d : Decimal) : Prop :=
  d.unscaled = 0 ∨ scaleInRange d.scale = true

/-- The digits of a decimal show it without places. -/
theorem shows_digits (d : Decimal) : Shows (Text.minusSign d.unscaled ++ d.digits) d.unscaled 0 :=
  shows_of_natAbs (fun _ => Text.isDigit_of_mem_natDigits) (Text.natDigits_ne_nil _)
    (Text.digitsValue_natDigits _)

/-- With the point after its first digit a decimal shows as many places as digits follow. -/
theorem shows_pointAfterFirst (d : Decimal) :
    Shows (Text.minusSign d.unscaled ++ pointAfterFirst d.digits) d.unscaled
      (d.digits.length - 1) := by
  have hdigits : ∀ c ∈ d.digits, c.isDigit = true := fun c => Text.isDigit_of_mem_natDigits
  have hvalue : Text.digitsValue d.digits = d.unscaled.natAbs := Text.digitsValue_natDigits _
  obtain ⟨c, cs, hcons⟩ := List.exists_cons_of_ne_nil (Text.natDigits_ne_nil d.unscaled.natAbs)
  have hcons : d.digits = c :: cs := hcons
  rw [hcons] at hdigits hvalue ⊢
  cases cs with
  | nil => exact shows_of_natAbs hdigits (List.cons_ne_nil c []) hvalue
  | cons c' cs =>
    exact @shows_of_natAbs_point _ [c] (c' :: cs) hdigits (List.cons_ne_nil c []) hvalue

/-- Without places the plain form shows the whole number. -/
theorem shows_plain_of_scale_nonpos {d : Decimal} (hscale : d.scale ≤ 0) :
    Shows d.plain.toList d.whole 0 := by
  obtain ⟨ds, hplain, hds, hne, hvalue⟩ := plain_of_scale_nonpos hscale
  rw [hplain]
  exact shows_of_natAbs hds hne hvalue

/-- With places the plain form shows the decimal itself. -/
theorem shows_plain_of_scale_pos {d : Decimal} (hscale : 0 < d.scale) :
    Shows d.plain.toList d.unscaled d.scale.toNat := by
  obtain ⟨ds, fs, hplain, hdigits, hne, hlength, hvalue⟩ := plain_of_scale_pos hscale
  rw [hplain, ← hlength, Int.toNat_natCast]
  exact shows_of_natAbs_point hdigits hne hvalue

/-- The encoded form of a decimal other than zero can be read exactly if the scale is in its range.
-/
theorem encodable_iff {d : Decimal} (hne : d.unscaled ≠ 0) :
    d.Encodable ↔ scaleInRange d.scale = true :=
  or_iff_right hne

/-- The scales that fit in 64 bits lie between the two limits. -/
theorem scaleInRange_iff {scale : Int} :
    scaleInRange scale = true ↔ -2 ^ 63 ≤ scale ∧ scale ≤ 2 ^ 63 - 1 :=
  Text.fitsInt64_iff

/-- A very small number is read back: the exponent counts from the first digit on. -/
theorem ofText_negativeExponent {d : Decimal} (hne : d.unscaled ≠ 0)
    (hsmall : d.scale - d.digits.length > leadingZeroLimit) {e : Decimal} :
    ofText d.encoded = .ok e ↔ e = d ∧ scaleInRange d.scale = true := by
  have hlimit : leadingZeroLimit = 5 := rfl
  have hlength : 0 < d.digits.length := List.length_pos_iff.mpr (Text.natDigits_ne_nil _)
  -- the exponent that is written is the scale less the places that are shown
  obtain ⟨n, hn⟩ := Int.eq_ofNat_of_zero_le (a := d.scale - (d.digits.length - 1)) (by omega)
  have hexponent : (d.digits.length : Int) - 1 - d.scale = -(n : Int) := by omega
  have hscale : ((d.digits.length - 1 : Nat) : Int) - -(n : Int) = d.scale := by omega
  have hdigits : Text.intText (-(n : Int)) = String.ofList ('-' :: Text.natDigits n) := by
    rw [Text.intText, Text.minusSign, if_pos (by omega), Int.natAbs_neg, Int.natAbs_natCast]
    rfl
  have htext : d.encoded = String.ofList ((Text.minusSign d.unscaled ++
      pointAfterFirst d.digits) ++ 'E' :: '-' :: Text.natDigits n) := by
    rw [encoded, if_neg hne, if_pos hsmall, hexponent, hdigits, ← String.ofList_append,
      List.append_assoc]
    rfl
  have hread : ∀ m, readExponent ('-' :: Text.natDigits n) = .ok m ↔
      n ≤ exponentBound true ∧ m = -(n : Int) := fun _ => readExponent_eq_ok_iff true
  rw [htext, ofText_eq_ok_iff_of_exponent d.shows_pointAfterFirst rfl hread, hscale]
  rw [hscale, scaleInRange_iff]
  intro hrange
  have hbound : exponentBound true = 2 ^ 127 := rfl
  omega

/-- An integer with many zeros at its end is read back. -/
theorem ofText_positiveExponent {d : Decimal} (hne : d.unscaled ≠ 0)
    (hlarge : -d.scale > trailingZeroLimit) {e : Decimal} :
    ofText d.encoded = .ok e ↔ e = d ∧ scaleInRange d.scale = true := by
  have hlimits : leadingZeroLimit = 5 ∧ trailingZeroLimit = 15 := ⟨rfl, rfl⟩
  obtain ⟨n, hn⟩ := Int.eq_ofNat_of_zero_le (a := -d.scale) (by omega)
  have hscale : ((0 : Nat) : Int) - n = d.scale := by omega
  have hdigits : Text.intText (n : Int) = String.ofList (Text.natDigits n) := by
    rw [Text.intText, Text.minusSign, if_neg (by omega), Int.natAbs_natCast]
    rfl
  have htext : d.encoded = String.ofList
      ((Text.minusSign d.unscaled ++ d.digits) ++ 'e' :: '+' :: Text.natDigits n) := by
    rw [encoded, if_neg hne, if_neg (by omega), if_pos hlarge, hn, hdigits, ← String.ofList_append,
      List.append_assoc]
    rfl
  have hread : ∀ m, readExponent ('+' :: Text.natDigits n) = .ok m ↔
      n ≤ exponentBound false ∧ m = (n : Int) := fun _ => readExponent_eq_ok_iff false
  rw [htext, ofText_eq_ok_iff_of_exponent d.shows_digits rfl hread, hscale]
  rw [hscale, scaleInRange_iff]
  intro hrange
  have hbound : exponentBound false = 2 ^ 127 - 1 := rfl
  omega

/-- The encoded form is read as the decimal `reread`, and only if the scale is in range or the
decimal is zero. -/
theorem ofText_encoded_eq_ok_iff {d e : Decimal} :
    ofText d.encoded = .ok e ↔ e = d.reread ∧ d.Encodable := by
  have hlimits : leadingZeroLimit = 5 ∧ trailingZeroLimit = 15 := ⟨rfl, rfl⟩
  by_cases hzero : d.unscaled = 0
  · have hread : ofText "0" = .ok ⟨0, 0⟩ := rfl
    rw [encoded, if_pos hzero, hread, reread, if_pos hzero, Except.ok.injEq]
    exact ⟨fun h => ⟨h.symm, Or.inl hzero⟩, fun h => h.1.symm⟩
  rw [encodable_iff hzero, reread, if_neg hzero]
  by_cases hsmall : d.scale - d.digits.length > leadingZeroLimit
  · rw [if_pos (Or.inl (by omega))]
    exact ofText_negativeExponent hzero hsmall
  by_cases hlarge : -d.scale > trailingZeroLimit
  · rw [if_pos (Or.inr hlarge)]
    exact ofText_positiveExponent hzero hlarge
  -- otherwise the notation is the plain one
  have hplain : d.encoded = String.ofList d.plain.toList := by
    rw [encoded, if_neg hzero, if_neg hsmall, if_neg hlarge, String.ofList_toList]
  by_cases hscale : 0 < d.scale
  · have hplaces : (d.scale.toNat : Int) = d.scale := by omega
    rw [if_pos (Or.inl hscale), hplain,
      ofText_eq_ok_iff_of_shows (shows_plain_of_scale_pos hscale), hplaces]
  · have hrange : scaleInRange d.scale = true := scaleInRange_iff.mpr (by omega)
    rw [if_neg (by omega), hplain,
      ofText_eq_ok_iff_of_shows (shows_plain_of_scale_nonpos (by omega)), hrange]
    exact ⟨fun h => ⟨h.1, rfl⟩, fun h => ⟨h.1, rfl⟩⟩

/-! ## Values -/

/-- The encoded form keeps the value. -/
theorem value_reread (d : Decimal) : d.reread.value = d.value := by
  rw [reread]
  split
  · rename_i hzero
    rw [value, value, hzero, Int.cast_zero, zero_mul, zero_mul]
  · split
    · rfl
    · rename_i hscale
      have hwhole := @value_mul_pow d 0 (by omega)
      rw [zpow_zero, mul_one, Int.zero_sub] at hwhole
      rw [hwhole, value, whole, neg_zero, zpow_zero, mul_one]

/-- A decimal with a point that is not zero is read back as it was. -/
theorem reread_of_scale_pos {d : Decimal} (hscale : 0 < d.scale) (hne : d.unscaled ≠ 0) :
    d.reread = d := by
  rw [reread, if_neg hne, if_pos (Or.inl hscale)]

end RowFilter.Decimal
