import RowFilter.Proofs.Token.Number
import RowFilter.Proofs.Token.Quoted

/-!
# The ways to write a token

The lexical grammar: which characters are a way to write a token of a kind. It does not refer to
what stands around a token. Whatever is a way to write a kind is one token of this kind before every
break; the text of every valid token is a way to write its kind; and so is the usual spelling of the
kind, whichever way it was written first.
-/

set_option autoImplicit false

namespace RowFilter.Text

/-- The characters are a way to write a token of the kind. -/
inductive Writes : List Char → Kind → Prop
  /-- A keyword, in any case. -/
  | keyword {w : List Char} {k : Keyword} (h : w.map Char.toUpper = k.text.toList) :
    Writes w (.keyword k)
  /-- A word that is no keyword. -/
  | word {w : List Char} (hword : isWord w = true) (hkeyword : Keyword.ofWord? w = none) :
    Writes w (.word (String.ofList w))
  /-- Digits, perhaps after a sign, that denote an integer in range. -/
  | integer {sign ds : List Char} {n : Int} (hsign : sign ∈ Lexeme.signs)
    (hds : ∀ c ∈ ds, c.isDigit = true) (hne : ds ≠ [])
    (hvalue : signed (sign == ['-']) (digitsValue ds) = n) (hrange : fitsInt64 n = true) :
    Writes (sign ++ ds) (.integer (Int64.ofInt n))
  /-- Digits on both sides of a point, perhaps after a sign. -/
  | decimal {sign ds fs : List Char} (hsign : sign ∈ Lexeme.signs)
    (hds : ∀ c ∈ ds, c.isDigit = true) (hne : ds ≠ []) (hfs : ∀ c ∈ fs, c.isDigit = true)
    (hfsNe : fs ≠ []) :
    Writes (sign ++ ds ++ '.' :: fs)
      (.decimal ⟨signed (sign == ['-']) (digitsValue (ds ++ fs)), fs.length⟩)
  /-- The body of a string in single quotes, closed on its line as escapes allow. -/
  | string {cs : List Char} (h : (Enclosed.ofString cs).closed = true) :
    Writes ((Enclosed.ofString cs).text '\'') (.string (String.ofList (Enclosed.ofString cs).body))
  /-- A name in double quotes. -/
  | quotedName {name : List Char} (hquote : '"' ∉ name) (hlineFeed : '\n' ∉ name) :
    Writes ('"' :: (name ++ ['"'])) (.quotedName (String.ofList name))
  /-- A sign of one character. -/
  | sign {c : Char} (h : (Lexeme.signKind c).error? = none) : Writes [c] (Lexeme.signKind c)
  /-- A sign of two characters. -/
  | pair {c d : Char} {k : Kind} (h : Lexeme.pairKind? c d = some k) : Writes [c, d] k

namespace Writes

/-- What is written as a token of a kind is read as one token of this kind before every break. -/
theorem isToken {cs : List Char} {k : Kind} (h : Writes cs k) : IsToken cs k := by
  cases h with
  | keyword h => exact IsToken.keyword h
  | word hword hkeyword =>
    have htoken := IsToken.word hword
    rwa [Lexeme.wordKind, hkeyword] at htoken
  | integer hsign hds hne hvalue hrange =>
    have htoken := IsToken.integer hsign hds hne
    rwa [Lexeme.integerKind, hvalue, if_pos hrange] at htoken
  | decimal hsign hds hne hfs hfsNe => exact IsToken.decimal hsign hds hne hfs hfsNe
  | string h => exact IsToken.string h
  | quotedName hquote hlineFeed => exact IsToken.quotedName hquote hlineFeed
  | sign h => exact IsToken.sign h
  | pair h => exact IsToken.pair h

end Writes

end RowFilter.Text

namespace RowFilter.Lexeme

open RowFilter.Text

/-! ## The text of a token -/

/-- The text of a string is a way to write it. -/
theorem writes_string {cs : List Char} (h : (string cs).kind.error? = none) :
    Writes (string cs).text (string cs).kind := by
  cases hclosed : (Enclosed.ofString cs).closed with
  | false => simp [string, hclosed, Kind.error?] at h
  | true => simpa [string, hclosed] using Writes.string hclosed

/-- The text of a quoted name is a way to write it. -/
theorem writes_quotedName {cs : List Char} (h : (quotedName cs).kind.error? = none) :
    Writes (quotedName cs).text (quotedName cs).kind := by
  cases hclosed : (Enclosed.ofName cs).closed with
  | false => simp [quotedName, hclosed, Kind.error?] at h
  | true =>
    obtain ⟨hquote, hlineFeed⟩ := Enclosed.not_mem_body_ofName cs
    simpa [quotedName, hclosed, Enclosed.text] using Writes.quotedName hquote hlineFeed

/-- The text of a number is a way to write it. -/
theorem writes_number {before ds : List Char} (hbefore : before ∈ signs)
    (hdigit : beginsWithDigit ds = true) (h : (number before ds).kind.error? = none) :
    Writes (number before ds).text (number before ds).kind := by
  have hwhole : ∀ c ∈ ds.takeWhile Char.isDigit, c.isDigit = true :=
    List.all_eq_true.mp List.all_takeWhile
  have hne := takeWhile_isDigit_ne_nil hdigit
  by_cases hempty : fractionDigits (ds.dropWhile Char.isDigit) = []
  · simp only [number, hempty, List.isEmpty_nil, if_true, integerKind] at h ⊢
    split at h
    · rename_i hrange
      rw [if_pos hrange]
      exact Writes.integer hbefore hwhole hne rfl hrange
    · contradiction
  · simp only [number, List.isEmpty_iff, hempty, if_false]
    exact Writes.decimal hbefore hwhole hne (fun _ => isDigit_of_mem_fractionDigits) hempty

/-- The text of a word is a way to write it. -/
theorem writes_word {c : Char} (hc : isWordStart c = true) (cs : List Char) :
    Writes (word c cs).text (word c cs).kind := by
  have hword : isWord (c :: cs.takeWhile isWordChar) = true := by
    rw [isWord, hc, Bool.true_and]
    exact List.all_takeWhile
  simp only [word, wordKind]
  split
  · rename_i k hk
    apply Writes.keyword
    have hfound := List.find?_some hk
    exact (of_decide_eq_true hfound).symm
  · rename_i hk
    exact Writes.word hword hk

/-- The text of a sign is a way to write it. -/
theorem writes_sign {c : Char} {cs : List Char} (h : (sign c cs).kind.error? = none) :
    Writes (sign c cs).text (sign c cs).kind := by
  unfold sign at h ⊢
  split at h
  · exact Writes.sign h
  · rename_i d ds
    cases hpair : pairKind? c d with
    | some k => exact Writes.pair hpair
    | none =>
      simp only [hpair] at h ⊢
      exact Writes.sign h

/-- The text of a valid token is a way to write its kind. -/
theorem writes_scan {c : Char} {cs : List Char} (h : (scan c cs).kind.error? = none) :
    Writes (scan c cs).text (scan c cs).kind := by
  rcases scan_cases c cs with hscan | hscan | ⟨before, ds, hbefore, hdigit, hscan⟩ |
    ⟨hword, hscan⟩ | hscan
  all_goals rw [hscan] at h ⊢
  · exact writes_string h
  · exact writes_quotedName h
  · exact writes_number hbefore hdigit h
  · exact writes_word hword cs
  · exact writes_sign h

end RowFilter.Lexeme

/-- A valid token kind of a text is written somewhere in it. -/
theorem RowFilter.Text.exists_writes_of_mem_kinds {cs : List Char} {k : Kind} (h : k ∈ kinds cs)
    (hvalid : k.error? = none) : ∃ w, w.length ≤ cs.length ∧ Writes w k := by
  obtain ⟨c, rest, hle, rfl⟩ := exists_scan_of_mem_kinds h
  have hlength := congrArg List.length (Lexeme.scan_append c rest)
  rw [List.length_append] at hlength
  exact ⟨_, by omega, Lexeme.writes_scan hvalid⟩

namespace RowFilter.Text.Writes

/-! ## The usual spelling -/

/-- The text of a comparison is a way to write it. -/
theorem comparison (op : Comparison) : Writes op.text.toList (.comparison op) := by
  cases op with
  | equal => exact sign (c := '=') rfl
  | notEqual => exact pair rfl
  | less => exact sign (c := '<') rfl
  | lessOrEqual => exact pair rfl
  | greater => exact sign (c := '>') rfl
  | greaterOrEqual => exact pair rfl

/-- The decimal form of an integer is a way to write it. -/
theorem int64 (n : Int64) : Writes (intText n.toInt).toList (.integer n) := by
  have hvalue : signed (minusSign n.toInt == ['-']) (digitsValue (natDigits n.toInt.natAbs)) =
      n.toInt := by
    rw [digitsValue_natDigits, signed_minusSign]
  have hwrites := integer (minusSign_mem_signs n.toInt) (fun c => isDigit_of_mem_natDigits)
    (natDigits_ne_nil _) hvalue (fitsInt64_toInt n)
  rwa [Int64.ofInt_toInt, ← String.toList_ofList (l := minusSign _ ++ _)] at hwrites

/-- The plain form of a decimal with places is a way to write it. -/
theorem plain {d : Decimal} (hscale : 0 < d.scale) : Writes d.plain.toList (.decimal d) := by
  obtain ⟨ds, fs, hplain, hdigits, hne, hlength, hvalue⟩ := d.plain_of_scale_pos hscale
  obtain ⟨hds, hfs⟩ := List.forall_mem_append.mp hdigits
  have hfsNe : fs ≠ [] := by
    apply List.ne_nil_of_length_pos
    omega
  have hwrites := decimal (minusSign_mem_signs d.unscaled) hds hne hfs hfsNe
  rw [hvalue, signed_minusSign, hlength] at hwrites
  rw [hplain, ← List.append_assoc]
  exact hwrites

/-- A kind that can be written at all can be written as it is shown. -/
theorem shown {cs : List Char} {k : Kind} (h : Writes cs k) : Writes k.text.toList k := by
  cases h with
  | @keyword w k h => exact keyword k.text_upper.2.2.1
  | @word w hword hkeyword =>
    rw [Kind.text, String.toList_ofList]
    exact word hword hkeyword
  | integer => exact int64 _
  | decimal hsign hds hne hfs hfsNe =>
    apply plain
    exact Int.natCast_pos.mpr (List.length_pos_iff.mpr hfsNe)
  | @string cs h =>
    have hwrites := string h
    have htext : (Kind.string (String.ofList (Enclosed.ofString cs).body)).text.toList =
        (Enclosed.ofString cs).text '\'' := by
      simp [Kind.text, Enclosed.text, h]
    rwa [htext]
  | @quotedName name hquote hlineFeed =>
    have htext : (Kind.quotedName (String.ofList name)).text.toList = '"' :: (name ++ ['"']) := by
      simp [Kind.text]
    rw [htext]
    exact quotedName hquote hlineFeed
  | @sign c h =>
    unfold Lexeme.signKind at h ⊢
    split at h
    · exact comparison .equal
    · exact comparison .less
    · exact comparison .greater
    · exact sign (c := ',') rfl
    · exact sign (c := '.') rfl
    · exact sign (c := '(') rfl
    · exact sign (c := ')') rfl
    · contradiction
  | @pair c d k h =>
    unfold Lexeme.pairKind? at h
    split at h <;> cases h <;> exact comparison _

end RowFilter.Text.Writes

namespace RowFilter.Spells

/-- Every way to write a token spells it. -/
theorem of_writes {cs : List Char} {k : Kind} (h : Text.Writes cs k) : Spells True cs [k] :=
  of_isToken h.isToken

/-- The text of a keyword spells it. -/
theorem keyword (k : Keyword) : Spells True k.text.toList [.keyword k] :=
  of_writes (.keyword k.text_upper.2.2.1)

/-- A printed truth value spells its keyword. -/
theorem boolean (b : Bool) :
    Spells True (Literal.boolean b).render.toList [.keyword (.bool b)] := by
  apply of_writes
  cases b with
  | false => exact .keyword (by decide)
  | true => exact .keyword (by decide)

/-- The text of a comparison spells it. -/
theorem comparison (op : Comparison) : Spells True op.text.toList [.comparison op] :=
  of_writes (.comparison op)

/-- The decimal form of an integer spells it. -/
theorem int64 (n : Int64) : Spells True (Text.intText n.toInt).toList [.integer n] :=
  of_writes (.int64 n)

/-- The plain form of a decimal with places spells it. -/
theorem decimal {d : Decimal} (hscale : 0 < d.scale) : Spells True d.plain.toList [.decimal d] :=
  of_writes (.plain hscale)

end RowFilter.Spells
