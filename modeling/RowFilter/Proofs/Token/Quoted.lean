import RowFilter.Pattern
import RowFilter.Predicate.Printer
import RowFilter.Proofs.Token.StringBody
import RowFilter.Proofs.Token.Word

/-!
# Quoted text

Text that is written in quotes is read back as it was written, unless it holds a line feed: then the
quote is not closed on its line. In single quotes the printer escapes quotes and backslashes, so no
line feed is ever the second character of an escape, and none gets through.
-/

set_option autoImplicit false

namespace RowFilter

/-! ## Single quotes -/

namespace Text

/-- Characters are escaped one by one. -/
theorem escape_cons (wildcards : Bool) (c : Char) (cs : List Char) :
    escape wildcards (c :: cs) =
      (if needsEscape wildcards c then ['\\', c] else [c]) ++ escape wildcards cs := rfl

/-- Escaped text without a line feed is the body of a string. -/
theorem stringBody_escape (wildcards : Bool) {cs : List Char} (h : '\n' ∉ cs) :
    StringBody (escape wildcards cs) := by
  induction cs with
  | nil => exact .nil
  | cons c cs ih =>
    have hc : '\n' ≠ c := List.ne_of_not_mem_cons h
    have hbody := ih (List.not_mem_of_not_mem_cons h)
    rw [escape_cons]
    split
    · exact .escape c hbody
    · rename_i hescape
      have hquote : c ≠ '\'' := by
        rintro rfl
        exact hescape rfl
      have hbackslash : c ≠ '\\' := by
        rintro rfl
        exact hescape rfl
      exact .char hbackslash hquote hc.symm hbody

end Text

namespace Enclosed

/-- Escaped text with a line feed is not closed before the line feed. -/
theorem ofString_escape_lineFeed (wildcards : Bool) {cs : List Char} (h : '\n' ∈ cs)
    (ds : List Char) : (ofString (Text.escape wildcards cs ++ ds)).closed = false := by
  obtain ⟨before, after, rfl, hbefore⟩ := List.eq_append_cons_of_mem h
  have hlineFeed : Text.needsEscape wildcards '\n' = false := by
    cases wildcards <;> decide
  have hsplit : Text.escape wildcards (before ++ '\n' :: after) ++ ds =
      Text.escape wildcards before ++ '\n' :: (Text.escape wildcards after ++ ds) := by
    simp only [Text.escape, List.flatMap_append, List.flatMap_cons, hlineFeed, Bool.false_eq_true,
      if_false, List.append_assoc, List.singleton_append]
    rfl
  rw [hsplit, ofString_append_of_stringBody (Text.stringBody_escape wildcards hbefore)]
  rfl

/-- A closed body is read again in front of any other text. -/
theorem ofString_of_closed {cs : List Char} (h : (ofString cs).closed = true) (rest : List Char) :
    ofString ((ofString cs).body ++ '\'' :: rest) = ⟨(ofString cs).body, true, rest⟩ :=
  ofString_stringBody (stringBody_of_closed h) rest

end Enclosed

/-- Single-quoted text that is closed is one token with its raw body. -/
theorem Text.IsToken.string {cs : List Char} (h : (Enclosed.ofString cs).closed = true) :
    IsToken ((Enclosed.ofString cs).text '\'')
      (.string (String.ofList (Enclosed.ofString cs).body)) := by
  rw [Enclosed.text, h, cond_true]
  apply of_scan (by decide)
  intro rest _
  have hbody := Enclosed.ofString_of_closed h rest
  simp [Lexeme.scan, Lexeme.string, hbody, Enclosed.text]

namespace Spells

/-- Escaped text in single quotes, perhaps with more units between it and the closing quote. -/
theorem singleQuoted (wildcards : Bool) {cs ending : List Char}
    (hending : Text.StringBody ending) :
    Spells ('\n' ∉ cs) ('\'' :: (Text.escape wildcards cs ++ ending ++ ['\'']))
      [.string (String.ofList (Text.escape wildcards cs ++ ending))] := by
  have hscan (rest : List Char) :
      Lexeme.scan '\'' (Text.escape wildcards cs ++ ending ++ ['\''] ++ rest) =
        Lexeme.string (Text.escape wildcards cs ++ (ending ++ '\'' :: rest)) := by
    simp [Lexeme.scan]
  apply of_scan (by decide)
  · intro hcs rest _
    rw [hscan, Lexeme.string,
      Enclosed.ofString_append_of_stringBody (Text.stringBody_escape wildcards hcs),
      Enclosed.ofString_stringBody hending]
    exact ⟨rfl, rfl⟩
  · intro hcs rest _
    rw [hscan, Lexeme.string,
      Enclosed.ofString_escape_lineFeed wildcards (Classical.not_not.mp hcs)]
    exact ⟨_, rfl⟩

/-- A string that is printed in quotes spells itself, escaped, unless there is a line feed in it. -/
theorem quote (text : String) : Spells ('\n' ∉ text.toList) (Text.quote text).toList
    [.string (String.ofList (Text.escape false text.toList))] := by
  have hspells := @singleQuoted false text.toList [] .nil
  rw [Text.quote, String.toList_ofList]
  simpa using hspells

/-- The pattern of a start test spells itself, escaped and with a wildcard, unless there is a line
feed in it. -/
theorem stemPattern (stem : String) :
    Spells ('\n' ∉ stem.toList) (Predicate.stemPattern stem).toList
      [.string (String.ofList (Text.escape true stem.toList ++ ['%']))] := by
  have hpercent : Text.StringBody ['%'] := .char (by decide) (by decide) (by decide) .nil
  have hspells := @singleQuoted true stem.toList ['%'] hpercent
  rw [Predicate.stemPattern, String.toList_ofList]
  simpa using hspells

end Spells

namespace Pattern

/-- Escaped text is only put in front of what the rest of a pattern asks for. -/
theorem ofRaw?_escape_append (cs ds : List Char) :
    ofRaw? (Text.escape true cs ++ ds) = (ofRaw? ds).map (prepend cs) := by
  induction cs with
  | nil =>
    show ofRaw? ds = _
    cases ofRaw? ds with
    | none => rfl
    | some p => exact congrArg some p.prepend_nil.symm
  | cons c cs ih =>
    have hmore : ((ofRaw? ds).map (prepend cs)).map (prepend [c]) =
        (ofRaw? ds).map (prepend (c :: cs)) := by
      rw [Option.map_map]
      congr 1
      funext p
      exact (p.prepend_append [c] cs).symm
    rw [Text.escape_cons]
    split
    · -- an escape stands for the character that it protects
      rename_i hescape
      rw [List.append_assoc]
      show (ofRaw? (Text.escape true cs ++ ds)).map (prepend (Text.resolve c)) = _
      rw [ih, Text.resolve, if_pos hescape, hmore]
    · -- what needs no escape is neither the wildcard nor a backslash
      rename_i hescape
      have hpercent : c ≠ '%' := by
        rintro rfl
        exact hescape rfl
      have hbackslash : c ≠ '\\' := by
        rintro rfl
        exact hescape rfl
      rw [List.append_assoc, List.singleton_append, ofRaw?, ih, hmore]
      · intro heq
        exact absurd heq hpercent
      · intro d ds heq
        exact absurd heq hpercent
      · intro d ds heq
        exact absurd heq hbackslash

/-- Escaped text alone is a pattern for this text. -/
theorem ofRaw?_escape_whole (cs : List Char) :
    ofRaw? (Text.escape true cs) = some (.equals (String.ofList cs)) := by
  have hwhole := ofRaw?_escape_append cs []
  rw [List.append_nil] at hwhole
  rw [hwhole, ofRaw?, Option.map_some, prepend, String.append_empty]

/-- The pattern for a stem is read as the stem. -/
theorem ofRaw?_escape (cs : List Char) :
    ofRaw? (Text.escape true cs ++ ['%']) = some (.startsWith (String.ofList cs)) := by
  rw [ofRaw?_escape_append, ofRaw?, Option.map_some, prepend, String.append_empty]

end Pattern

/-! ## Double quotes -/

namespace Enclosed

/-- A name in double quotes ends at the first character that is a double quote or a line feed. -/
theorem ofName_of_not_mem {name : List Char} (hquote : '"' ∉ name) (hlineFeed : '\n' ∉ name)
    {c : Char} (hc : c = '"' ∨ c = '\n') (rest : List Char) :
    ofName (name ++ c :: rest) = ⟨name, c == '"', if c == '"' then rest else c :: rest⟩ := by
  have hname : ∀ d ∈ name, (d != '"' && d != '\n') = true := by
    intro d hd
    have hdquote : d ≠ '"' := ne_of_mem_of_not_mem hd hquote
    have hdlineFeed : d ≠ '\n' := ne_of_mem_of_not_mem hd hlineFeed
    simp [hdquote, hdlineFeed]
  have hstop : ∀ d ∈ (c :: rest).head?, (d != '"' && d != '\n') = false := by
    intro d hd
    cases hd
    rcases hc with rfl | rfl <;> rfl
  rw [ofName, dropWhile_run hname hstop, takeWhile_run hname hstop]
  rcases hc with rfl | rfl <;> rfl

/-- A double-quoted name ends at the first double quote or line feed. -/
theorem not_mem_body_ofName (cs : List Char) :
    '"' ∉ (ofName cs).body ∧ '\n' ∉ (ofName cs).body := by
  have hbody : (ofName cs).body = cs.takeWhile fun c => c != '"' && c != '\n' := by
    unfold ofName
    split <;> rfl
  have hall := List.all_eq_true.mp
    (List.all_takeWhile (p := fun c => c != '"' && c != '\n') (l := cs))
  rw [hbody]
  constructor
  · intro hmem
    exact absurd (hall _ hmem) (by decide)
  · intro hmem
    exact absurd (hall _ hmem) (by decide)

end Enclosed

/-- A name in double quotes is one token, if it has no double quote and no line feed. -/
theorem Text.IsToken.quotedName {name : List Char} (hquote : '"' ∉ name) (hlineFeed : '\n' ∉ name) :
    IsToken ('"' :: (name ++ ['"'])) (.quotedName (String.ofList name)) := by
  apply of_scan (by decide)
  intro rest _
  have hbody := Enclosed.ofName_of_not_mem hquote hlineFeed (c := '"') (Or.inl rfl) rest
  simp [Lexeme.scan, Lexeme.quotedName, hbody, Enclosed.text]

/-- A name without a double quote spells itself in double quotes, unless there is a line feed in it.
-/
theorem Spells.quotedName {name : List Char} (h : '"' ∉ name) :
    Spells ('\n' ∉ name) ('"' :: (name ++ ['"'])) [.quotedName (String.ofList name)] := by
  have hscan (rest : List Char) : Lexeme.scan '"' (name ++ ['"'] ++ rest) =
      Lexeme.quotedName (name ++ '"' :: rest) := by
    simp [Lexeme.scan]
  apply of_scan (by decide)
  · intro hname rest _
    rw [hscan, Lexeme.quotedName, Enclosed.ofName_of_not_mem h hname (Or.inl rfl)]
    exact ⟨rfl, rfl⟩
  · intro hname rest _
    obtain ⟨before, after, rfl, hbefore⟩ := List.eq_append_cons_of_mem (Classical.not_not.mp hname)
    have hquote : '"' ∉ before := fun hmem => h (List.mem_append_left _ hmem)
    rw [hscan, List.append_assoc, List.cons_append, Lexeme.quotedName,
      Enclosed.ofName_of_not_mem hquote hbefore (Or.inr rfl)]
    exact ⟨_, rfl⟩

end RowFilter
