import RowFilter.Proofs.Decimal.Encoded
import RowFilter.Proofs.Token.Tiling
import RowFilter.Proofs.Token.Writing

/-!
# Written numbers

A written number has digits, perhaps a sign before them, and perhaps a point with more digits after
them. Where a text goes on with a digit, or with a sign and a digit, the next token is the longest
written number that stands there, and it carries exactly this number: an integer without a point, in
the range of 64 bits, and a decimal with one, which shows as many places as were written. What a
number says is told from the places of its digits, and not from how it is read.
-/

set_option autoImplicit false

namespace RowFilter

/-- The parts of a written number. Without digits behind it there is no point either. -/
structure NumberText where
  sign : List Char
  whole : List Char
  fraction : List Char
  sign_mem : sign ∈ Lexeme.signs
  isDigit_whole : ∀ c ∈ whole, c.isDigit = true
  whole_ne_nil : whole ≠ []
  isDigit_fraction : ∀ c ∈ fraction, c.isDigit = true

namespace Text

/-- The text goes on with a digit, or with a sign and a digit. -/
def BeginsNumber (cs : List Char) : Prop :=
  ∃ sign ∈ Lexeme.signs, ∃ d rest, cs = sign ++ d :: rest ∧ d.isDigit = true

/-- Each digit counts by the number of digits after it. -/
def placeValue : List Char → Nat
  | [] => 0
  | c :: cs => (c.toNat - '0'.toNat) * 10 ^ cs.length + placeValue cs

/-- Reading digits from the left moves what was read before them up by their number of places. -/
theorem ofDigitChars_eq_placeValue (cs : List Char) (value : Nat) :
    Nat.ofDigitChars 10 cs value = value * 10 ^ cs.length + placeValue cs := by
  induction cs generalizing value with
  | nil => simp [placeValue]
  | cons c cs ih =>
    rw [Nat.ofDigitChars_cons, ih, placeValue, List.length_cons, pow_succ]
    ring

/-- Reading digits from left to right counts each of them by its place. -/
theorem digitsValue_eq_placeValue (cs : List Char) : digitsValue cs = placeValue cs := by
  rw [digitsValue, ofDigitChars_eq_placeValue, Nat.zero_mul, Nat.zero_add]

end Text

namespace NumberText

/-- The point and the digits behind it. -/
def places (n : NumberText) : List Char :=
  match n.fraction with
  | [] => []
  | fraction => '.' :: fraction

/-- The characters of a written number. -/
def text (n : NumberText) : List Char :=
  n.sign ++ (n.whole ++ n.places)

/-- The number that is written, without its point. -/
def unscaled (n : NumberText) : Int :=
  if n.sign = ['-'] then -(Text.placeValue (n.whole ++ n.fraction) : Int)
  else Text.placeValue (n.whole ++ n.fraction)

/-- The scanner and the decimal reader come to the number that is written. -/
theorem signed_digitsValue (n : NumberText) :
    Text.signed (n.sign == ['-']) (Text.digitsValue (n.whole ++ n.fraction)) = n.unscaled := by
  rw [Text.digitsValue_eq_placeValue, Text.signed, unscaled]
  simp only [beq_iff_eq]

/-- Without digits behind it there is no point. -/
theorem places_of_nil {n : NumberText} (h : n.fraction = []) : n.places = [] := by
  rw [places, h]

/-- The point stands before the digits behind it. -/
theorem places_of_ne_nil {n : NumberText} (h : n.fraction ≠ []) : n.places = '.' :: n.fraction := by
  unfold places
  split
  · contradiction
  · rfl

/-! ## The parts are told from the text -/

/-- A sign is what stands before the first digit. -/
theorem sign_unique {sign ds sign' ds' : List Char} (hsign : sign ∈ Lexeme.signs)
    (hsign' : sign' ∈ Lexeme.signs) (hdigit : Lexeme.beginsWithDigit ds = true)
    (hdigit' : Lexeme.beginsWithDigit ds' = true) (h : sign ++ ds = sign' ++ ds') :
    sign = sign' ∧ ds = ds' := by
  have hstop : ∀ es, Lexeme.beginsWithDigit es = true → ∀ c ∈ es.head?, (!c.isDigit) = false := by
    intro es hes c hc
    cases es with
    | nil => contradiction
    | cons e es =>
      cases hc
      simpa [Lexeme.beginsWithDigit] using hes
  have hsigns : ∀ s ∈ Lexeme.signs, ∀ c ∈ s, (!c.isDigit) = true := by
    simp [Lexeme.signs]
  have hsplit := takeWhile_run (hsigns sign hsign) (hstop ds hdigit)
  have hsplit' := takeWhile_run (hsigns sign' hsign') (hstop ds' hdigit')
  rw [h, hsplit'] at hsplit
  subst hsplit
  exact ⟨rfl, List.append_cancel_left h⟩

/-- After its sign a written number goes on with a digit. -/
theorem beginsWithDigit_whole (n : NumberText) (rest : List Char) :
    Lexeme.beginsWithDigit (n.whole ++ rest) = true := by
  obtain ⟨d, ds, hwhole⟩ := List.exists_cons_of_ne_nil n.whole_ne_nil
  have hd := n.isDigit_whole d (by simp [hwhole])
  rw [hwhole]
  exact hd

/-- The digits before the point end where the point is, or where the number ends. -/
theorem isDigit_head_places (n : NumberText) : ∀ c ∈ n.places.head?, c.isDigit = false := by
  unfold places
  split <;> simp

/-- The digits behind the point are found again. -/
theorem fractionDigits_places (n : NumberText) : Lexeme.fractionDigits n.places = n.fraction := by
  by_cases hfraction : n.fraction = []
  · rw [places_of_nil hfraction, hfraction, Lexeme.fractionDigits]
    simp
  · rw [places_of_ne_nil hfraction, Lexeme.fractionDigits, List.takeWhile_eq_self_iff]
    exact n.isDigit_fraction

/-- A text is a written number in one way only. -/
theorem text_injective {n m : NumberText} (h : n.text = m.text) : n = m := by
  obtain ⟨hsign, hrest⟩ := sign_unique n.sign_mem m.sign_mem (n.beginsWithDigit_whole _)
    (m.beginsWithDigit_whole _) h
  have hwhole := congrArg (List.takeWhile Char.isDigit) hrest
  rw [takeWhile_run n.isDigit_whole n.isDigit_head_places,
    takeWhile_run m.isDigit_whole m.isDigit_head_places] at hwhole
  have hplaces : n.places = m.places := by
    rw [hwhole] at hrest
    exact List.append_cancel_left hrest
  have hfraction : n.fraction = m.fraction := by
    rw [← n.fractionDigits_places, hplaces, m.fractionDigits_places]
  cases n
  cases m
  cases hsign
  cases hwhole
  cases hfraction
  rfl

/-! ## The longest number -/

section

variable {sign ds : List Char}

/-- The number that the lexeme of a text takes. -/
def longest (hsign : sign ∈ Lexeme.signs) (hdigit : Lexeme.beginsWithDigit ds = true) :
    NumberText where
  sign := sign
  whole := ds.takeWhile Char.isDigit
  fraction := Lexeme.fractionDigits (ds.dropWhile Char.isDigit)
  sign_mem := hsign
  isDigit_whole := List.all_eq_true.mp List.all_takeWhile
  whole_ne_nil := Lexeme.takeWhile_isDigit_ne_nil hdigit
  isDigit_fraction := fun _ => Lexeme.isDigit_of_mem_fractionDigits

/-- The lexeme of a number has the text of the number that it takes. -/
theorem text_longest (hsign : sign ∈ Lexeme.signs) (hdigit : Lexeme.beginsWithDigit ds = true) :
    (Lexeme.number sign ds).text = (longest hsign hdigit).text := by
  by_cases hfraction : Lexeme.fractionDigits (ds.dropWhile Char.isDigit) = []
  · simp [Lexeme.number, text, places, longest, hfraction]
  · rw [text, places_of_ne_nil hfraction]
    simp [Lexeme.number, longest, hfraction]

/-- No written number at the front of the text is longer than the one that is taken. -/
theorem prefix_longest (hsign : sign ∈ Lexeme.signs) (hdigit : Lexeme.beginsWithDigit ds = true)
    {m : NumberText} (h : m.text <+: sign ++ ds) : m.text <+: (longest hsign hdigit).text := by
  obtain ⟨rest, hrest⟩ := h
  rw [text, List.append_assoc, List.append_assoc] at hrest
  obtain ⟨rfl, hds⟩ := sign_unique m.sign_mem hsign (m.beginsWithDigit_whole _) hdigit hrest
  rw [text, text]
  apply (List.prefix_append_right_inj m.sign).mpr
  by_cases hfraction : m.fraction = []
  · -- without a point, all of the number is a run of digits
    have hwhole : m.whole <+: (longest hsign hdigit).whole := by
      show m.whole <+: ds.takeWhile Char.isDigit
      rw [← hds, List.takeWhile_append_of_pos m.isDigit_whole]
      exact List.prefix_append _ _
    rw [places_of_nil hfraction, List.append_nil]
    exact hwhole.trans (List.prefix_append _ _)
  · -- with a point, the digits before it are all that stand there
    rw [places_of_ne_nil hfraction, List.cons_append] at hds
    have hpoint : ∀ c ∈ ('.' :: (m.fraction ++ rest)).head?, c.isDigit = false := by
      simp
    have hwhole : (longest hsign hdigit).whole = m.whole := by
      show ds.takeWhile Char.isDigit = m.whole
      rw [← hds, takeWhile_run m.isDigit_whole hpoint]
    have hmore : (longest hsign hdigit).fraction = m.fraction ++ rest.takeWhile Char.isDigit := by
      show Lexeme.fractionDigits (ds.dropWhile Char.isDigit) = _
      rw [← hds, dropWhile_run m.isDigit_whole hpoint, Lexeme.fractionDigits,
        List.takeWhile_append_of_pos m.isDigit_fraction]
    have hne : (longest hsign hdigit).fraction ≠ [] := by
      rw [hmore]
      exact List.append_ne_nil_of_left_ne_nil hfraction _
    rw [places_of_ne_nil hfraction, places_of_ne_nil hne, hwhole, hmore, ← List.cons_append,
      ← List.append_assoc]
    exact List.prefix_append _ _

end

/-! ## What the token carries -/

section

variable {sign ds : List Char} (hsign : sign ∈ Lexeme.signs)
  (hdigit : Lexeme.beginsWithDigit ds = true)

/-- Without a point the token is the integer, or invalid if the integer does not fit. -/
theorem kind_number_of_nil (h : (longest hsign hdigit).fraction = []) :
    (Lexeme.number sign ds).kind =
      if Text.fitsInt64 (longest hsign hdigit).unscaled then
        .integer (Int64.ofInt (longest hsign hdigit).unscaled)
      else .invalid (.integerRange (String.ofList (longest hsign hdigit).text)) := by
  have hfraction : Lexeme.fractionDigits (ds.dropWhile Char.isDigit) = [] := h
  simp only [← signed_digitsValue, text, places_of_nil h, h, List.append_nil]
  simp only [Lexeme.number, hfraction, List.isEmpty_nil, if_true, Lexeme.integerKind, longest]

/-- With a point the token is a decimal. -/
theorem kind_number_of_ne_nil (h : (longest hsign hdigit).fraction ≠ []) :
    (Lexeme.number sign ds).kind =
      .decimal ⟨(longest hsign hdigit).unscaled, (longest hsign hdigit).fraction.length⟩ := by
  have hfraction : Lexeme.fractionDigits (ds.dropWhile Char.isDigit) ≠ [] := h
  simp only [Lexeme.number, List.isEmpty_iff, hfraction, if_false, ← signed_digitsValue,
    longest]

end

/-- Reading a written number with a point as a decimal gives its digits and its places, unless there
are more places than can be counted. -/
theorem ofText_text {n : NumberText} (h : n.fraction ≠ [])
    (hlength : n.fraction.length < 2 ^ 63) :
    Decimal.ofText (String.ofList n.text) = .ok ⟨n.unscaled, n.fraction.length⟩ := by
  have hdigits : ∀ c ∈ n.whole ++ n.fraction, c.isDigit = true :=
    List.forall_mem_append.mpr ⟨n.isDigit_whole, n.isDigit_fraction⟩
  have hshows := Decimal.shows_of_point n.sign_mem hdigits n.whole_ne_nil
  have hrange : Decimal.scaleInRange n.fraction.length = true := by
    rw [Decimal.scaleInRange_iff]
    omega
  rw [text, places_of_ne_nil h, ← signed_digitsValue]
  exact (Decimal.ofText_eq_ok_iff_of_shows hshows).mpr ⟨rfl, hrange⟩

end NumberText

/-- The next token is a written number and carries what the number says. -/
structure Cursor.TakesNumber (cursor : Cursor) (n : NumberText) : Prop where
  split : cursor.skipBlanks.rest = n.text ++ cursor.next.2.rest
  longest : ∀ m : NumberText, m.text <+: cursor.skipBlanks.rest → m.text <+: n.text
  text : cursor.next.1.text = String.ofList n.text
  integer : n.fraction = [] → -2 ^ 63 ≤ n.unscaled ∧ n.unscaled ≤ 2 ^ 63 - 1 →
    ∃ value : Int64, cursor.next.1.kind = .integer value ∧ value.toInt = n.unscaled
  /-- Without a point a number that does not fit is an error. -/
  range : n.fraction = [] → ¬ (-2 ^ 63 ≤ n.unscaled ∧ n.unscaled ≤ 2 ^ 63 - 1) →
    cursor.next.1.kind = .invalid (.integerRange (String.ofList n.text))
  /-- With a point it never is. The decimal reader and the plain form agree with the token. -/
  decimal : n.fraction ≠ [] → ∃ d : Decimal, cursor.next.1.kind = .decimal d ∧
    d.unscaled = n.unscaled ∧ d.scale = n.fraction.length ∧
    (n.fraction.length < 2 ^ 63 → Decimal.ofText (String.ofList n.text) = .ok d) ∧
    (TokenStream.ofText d.plain).kinds = [.decimal d]

/-- The number is told from the text of the token. -/
theorem Cursor.TakesNumber.eq_of_text {cursor : Cursor} {n m : NumberText}
    (h : cursor.TakesNumber n) (hm : cursor.next.1.text = String.ofList m.text) : n = m :=
  NumberText.text_injective (String.ofList_injective (h.text.symm.trans hm))

/-- Where a text goes on with a digit, or with a sign and a digit, the next token is the longest
written number that stands there. Without a point it is the integer that is written if this fits
into 64 bits, and invalid otherwise. With a point it is always a decimal: its unscaled number is
made of all the digits, and its scale counts those behind the point. The decimal reader gives the
same for the text, and the plain form of the decimal is read back as the same token. -/
theorem Cursor.next_number {cursor : Cursor} (h : Text.BeginsNumber cursor.skipBlanks.rest) :
    ∃ n : NumberText, cursor.TakesNumber n := by
  obtain ⟨sign, hsign, d, more, hsplit, hd⟩ := h
  have hdigit : Lexeme.beginsWithDigit (d :: more) = true := hd
  obtain ⟨c, cs, hcons, -⟩ := Lexeme.exists_cons_of_sign hsign hdigit
  have hscan := Lexeme.scan_number hsign hdigit hcons.symm
  have hnext := Cursor.next_of_cons (hsplit.trans hcons)
  rw [hscan] at hnext
  have hkind : cursor.next.1.kind = (Lexeme.number sign (d :: more)).kind := by
    rw [hnext]
    rfl
  have htext := NumberText.text_longest hsign hdigit
  refine ⟨NumberText.longest hsign hdigit, ?_⟩
  constructor
  case split =>
    rw [hnext, hsplit, ← htext]
    exact (Lexeme.number_append sign (d :: more)).symm
  case longest =>
    intro m hm
    rw [hsplit] at hm
    exact NumberText.prefix_longest hsign hdigit hm
  case text =>
    rw [hnext, ← htext]
    rfl
  case integer =>
    intro hfraction hrange
    refine ⟨Int64.ofInt (NumberText.longest hsign hdigit).unscaled, ?_, ?_⟩
    · rw [hkind, NumberText.kind_number_of_nil hsign hdigit hfraction,
        if_pos (Text.fitsInt64_iff.mpr hrange)]
    · exact Int64.toInt_ofInt_of_le hrange.1 (Int.lt_of_le_sub_one hrange.2)
  case range =>
    intro hfraction hrange
    rw [hkind, NumberText.kind_number_of_nil hsign hdigit hfraction,
      if_neg (mt Text.fitsInt64_iff.mp hrange)]
  case decimal =>
    intro hfraction
    refine ⟨_, hkind.trans (NumberText.kind_number_of_ne_nil hsign hdigit hfraction), rfl, rfl,
      NumberText.ofText_text hfraction, ?_⟩
    rw [TokenStream.kinds_ofText]
    apply (Spells.decimal _).kinds_eq trivial
    exact Int.natCast_pos.mpr (List.length_pos_iff.mpr hfraction)

/-- Leading zeros do not count for the smallest integer, and a point without digits behind it is not
read; one less does not fit any more; a second point ends a decimal. -/
theorem Cursor.next_number_limits :
    (∃ value : Int64,
      (next ⟨Position.start, " -009223372036854775808.x".toList⟩).1.kind = .integer value ∧
        value.toInt = -2 ^ 63) ∧
      (next ⟨Position.start, "-9223372036854775809".toList⟩).1.kind =
        .invalid (.integerRange "-9223372036854775809") ∧
      (next ⟨Position.start, "+0.50.5".toList⟩).1.kind = .decimal ⟨50, 2⟩ := by
  refine ⟨?_, ?_, ?_⟩
  · let written : NumberText := ⟨['-'], "009223372036854775808".toList, [], by decide,
      List.all_eq_true.mp (by decide), by decide, by simp⟩
    obtain ⟨n, hn⟩ := @next_number ⟨Position.start, " -009223372036854775808.x".toList⟩
      ⟨['-'], by decide, '0', "09223372036854775808.x".toList, by decide +kernel, by decide⟩
    obtain rfl := hn.eq_of_text (m := written) (by decide +kernel)
    have hvalue : written.unscaled = -2 ^ 63 := by decide +kernel
    obtain ⟨value, hkind, hinteger⟩ := hn.integer rfl (by rw [hvalue]; decide)
    exact ⟨value, hkind, hinteger.trans hvalue⟩
  · let written : NumberText := ⟨['-'], "9223372036854775809".toList, [], by decide,
      List.all_eq_true.mp (by decide), by decide, by simp⟩
    obtain ⟨n, hn⟩ := @next_number ⟨Position.start, "-9223372036854775809".toList⟩
      ⟨['-'], by decide, '9', "223372036854775809".toList, by decide +kernel, by decide⟩
    obtain rfl := hn.eq_of_text (m := written) (by decide +kernel)
    exact hn.range rfl (by decide +kernel)
  · let written : NumberText := ⟨['+'], ['0'], ['5', '0'], by decide,
      List.all_eq_true.mp (by decide), by decide, List.all_eq_true.mp (by decide)⟩
    obtain ⟨n, hn⟩ := @next_number ⟨Position.start, "+0.50.5".toList⟩
      ⟨['+'], by decide, '0', ".50.5".toList, by decide +kernel, by decide⟩
    obtain rfl := hn.eq_of_text (m := written) (by decide +kernel)
    obtain ⟨⟨unscaled, scale⟩, hkind, rfl, rfl, -⟩ := hn.decimal (by decide)
    exact hkind

end RowFilter
