import RowFilter.Proofs.Grammar.Reading
import RowFilter.Proofs.Session.Outcome
import RowFilter.Proofs.Token.Spelling

/-!
# Filters are exactly the texts of the grammar

A text is a filter if and only if it has no invalid token, its token kinds are those of a tree,
every list and every pattern of the tree is sound, and no place of it is nested more deeply than
allowed; the filter is then what the tree stands for. A text that only has an unsound leaf fails
with the violation of the leftmost one, and a text with an invalid token fails with the first of
these.
-/

set_option autoImplicit false

namespace RowFilter

namespace TokenStream

/-- A stream has no first invalid token exactly if it has none at all. -/
theorem firstInvalid?_eq_none_iff {s : TokenStream} : s.firstInvalid? = none ↔ s.Clean := by
  simp [firstInvalid?, Clean]

/-- An invalid token after valid ones is the first one. -/
theorem firstInvalid?_of_split {s : TokenStream} {left right : List Token} {t : Token}
    {e : LexicalError} (htokens : s.tokens = left ++ t :: right)
    (hleft : ∀ u ∈ left, u.kind.error? = none) (ht : t.kind = .invalid e) :
    s.firstInvalid? = some (e, t.position) := by
  have hnone : left.findSome? (fun u => u.kind.error?.map fun e => (e, u.position)) = none := by
    rw [List.findSome?_eq_none_iff]
    intro u hu
    rw [hleft u hu]
    rfl
  rw [firstInvalid?, htokens, List.findSome?_append, hnone, Option.none_or, List.findSome?_cons, ht]
  rfl

end TokenStream

namespace Grammar

/-- The parse error that reports a violation. -/
def Violation.error : Violation → ParseError
  | list cause => .invalidSet cause
  | pattern raw => .invalidPattern raw

/-- A violation is reported as its own error, at whatever token and limit. -/
theorem Violation.ofFault_fault (limit : Nat) (token : Token) (v : Violation) :
    ParseError.ofFault limit token v.fault = v.error := by
  cases v <;> rfl

/-- A text with an invalid token is answered with the first one, before anything is read. -/
theorem parseWith_of_firstInvalid? {config : Config} {text : String} {e : LexicalError}
    {position : Position} (h : (TokenStream.ofText text).firstInvalid? = some (e, position)) :
    parseWith config text = .error (.invalidToken e position) := by
  simp only [parseWith, parseLogged, Session.readAll, Session.start, h]

/-- A text without invalid tokens is answered with the outcome of reading its tokens to the end. -/
theorem parseWith_of_clean {config : Config} {text : String}
    (hclean : (TokenStream.ofText text).Clean) :
    parseWith config text =
      ((Session.start config text).readingOf (Session.start config text).outcome.closed).result :=
  congrArg Reading.result (Session.readAll_eq (TokenStream.firstInvalid?_eq_none_iff.mpr hclean))

/-- Tokens are read as a whole exactly if they have a tree that is read as the same predicate. -/
theorem reads_expression_iff {levels : Nat} {ks : List Kind} {p : Predicate} :
    Parser.Reads (Parser.expression levels) ks p [] ↔
      ∃ t : Phrase (.chain .or), t.kinds = ks ∧ t.read levels = .ok p := by
  constructor
  · intro h
    obtain ⟨t, hkinds, hread⟩ := phrase_of_reads h
    rw [List.append_nil] at hkinds
    exact ⟨t, hkinds.symm, hread⟩
  · rintro ⟨t, rfl, hread⟩
    have h := @Phrase.reads _ levels _ t (Symbol.ends_nil _) p hread
    rwa [List.append_nil] at h

/-- What is left to read is a filter exactly if no token of the text is invalid and the tokens that
are left have a tree that is read as the filter. -/
theorem readAll_eq_ok_iff {s : Session} {p : Predicate} :
    s.readAll.result = .ok p ↔ s.stream.Clean ∧
      ∃ t : Phrase (.chain .or), t.kinds = s.rest.map Token.kind ∧
        t.read s.config.maxDepth = .ok p := by
  rw [← TokenStream.firstInvalid?_eq_none_iff, ← reads_expression_iff]
  cases hinvalid : s.stream.firstInvalid? with
  | some invalid => simp [Session.readAll, hinvalid]
  | none =>
    rw [Session.readAll_eq hinvalid, Session.readingOf, mapError_eq_ok, Outcome.closed_eq_ok_iff]
    exact ⟨fun h => ⟨rfl, h⟩, And.right⟩

/-- A text is a filter exactly if it has no invalid token and its tokens have a tree that is read as
the filter. -/
theorem parseWith_eq_ok_iff {config : Config} {text : String} {p : Predicate} :
    parseWith config text = .ok p ↔ (TokenStream.ofText text).Clean ∧
      ∃ t : Phrase (.chain .or), t.kinds = (TokenStream.ofText text).kinds ∧
        t.read config.maxDepth = .ok p :=
  readAll_eq_ok_iff (s := Session.start config text)

/-- A tree of the tokens that cannot be read makes the text fail with its fault. -/
theorem parseWith_of_read_error {config : Config} {text : String}
    (hclean : (TokenStream.ofText text).Clean) {t : Phrase (.chain .or)}
    (hkinds : t.kinds = (TokenStream.ofText text).kinds) {fault : Fault}
    (hread : t.read config.maxDepth = .error fault) :
    ∃ token, parseWith config text = .error (ParseError.ofFault config.maxDepth token fault) := by
  obtain ⟨hresult, -⟩ := @Phrase.answers _ config.maxDepth _ t (Symbol.ends_nil _)
  rw [List.append_nil, hkinds, hread] at hresult
  have hclosed : (Session.start config text).outcome.closed.result = .error fault :=
    Outcome.closed_eq_error hresult
  rw [parseWith_of_clean hclean, Session.readingOf, hclosed]
  exact ⟨_, rfl⟩

/-- Grammar exactness: the filters are the texts without invalid tokens whose token kinds have a
tree of sound leaves that is nested no more deeply than allowed. If only a leaf is unsound, the
leftmost such leaf is the error; if a token is invalid, the first such token is. -/
theorem parseWith_exact (config : Config) (text : String) :
    (∀ p, parseWith config text = .ok p ↔
      (TokenStream.ofText text).Clean ∧
      ∃ t : Phrase (.chain .or), t.kinds = (TokenStream.ofText text).kinds ∧
        t.meaning = .ok p ∧ (∀ l ∈ t.leaves, l.Sound) ∧ t.depth ≤ config.maxDepth) ∧
    (∀ (t : Phrase (.chain .or)) (left : List Leaf) (l : Leaf) (right : List Leaf),
      (TokenStream.ofText text).Clean → t.kinds = (TokenStream.ofText text).kinds →
      t.depth ≤ config.maxDepth → t.leaves = left ++ l :: right → (∀ m ∈ left, m.Sound) →
      ¬ l.Sound → ∃ v, l.meaning = .error v ∧ parseWith config text = .error v.error) ∧
    (∀ (left : List Token) (t : Token) (right : List Token) (e : LexicalError),
      (TokenStream.ofText text).tokens = left ++ t :: right →
      (∀ u ∈ left, u.kind.error? = none) → t.kind = .invalid e →
      parseWith config text = .error (.invalidToken e t.position)) := by
  refine ⟨?_, ?_, ?_⟩
  · intro p
    rw [parseWith_eq_ok_iff]
    constructor
    · rintro ⟨hclean, t, hkinds, hread⟩
      obtain ⟨hdepth, hmeaning⟩ := Phrase.read_eq_ok_iff.mp hread
      refine ⟨hclean, t, hkinds, hmeaning, ?_, hdepth⟩
      intro l hl
      exact l.sound_iff.mpr (t.exists_meaning_iff.mp ⟨p, hmeaning⟩ l hl)
    · rintro ⟨hclean, t, hkinds, hmeaning, -, hdepth⟩
      exact ⟨hclean, t, hkinds, Phrase.read_eq_ok_iff.mpr ⟨hdepth, hmeaning⟩⟩
  · intro t left l right hclean hkinds hdepth hleaves hleft hl
    have hsome : ∃ v, l.meaning = .error v := by
      cases hmeaning : l.meaning with
      | ok p => exact absurd (l.sound_iff.mpr ⟨p, hmeaning⟩) hl
      | error v => exact ⟨v, rfl⟩
    obtain ⟨v, hv⟩ := hsome
    have hmeaning : t.meaning = .error v :=
      Phrase.meaning_of_leftmost hleaves (fun m hm => m.sound_iff.mp (hleft m hm)) hv
    have hread : t.read config.maxDepth = .error v.fault := by
      rw [Phrase.read_of_depth_le hdepth, hmeaning]
      rfl
    obtain ⟨token, herror⟩ := parseWith_of_read_error hclean hkinds hread
    rw [Violation.ofFault_fault] at herror
    exact ⟨v, hv, herror⟩
  · intro left t right e htokens hleft ht
    exact parseWith_of_firstInvalid? (TokenStream.firstInvalid?_of_split htokens hleft ht)

/-- `5 <= a.b` is kept as a test of the column `a.b` for values from 5 on. In
`NOT a LIKE '%b' AND c IN (1, 'x')` both leaves are unsound, and the pattern comes first. In
`a ? b !` two characters begin no token, and the question mark comes first. -/
theorem parseWith_exact_leftmost :
    parseWith ⟨0⟩ "5 <= a.b" = .ok (.compare .greaterOrEqual ⟨"a.b"⟩ (.integer 5)) ∧
      parseWith ⟨1⟩ "NOT a LIKE '%b' AND c IN (1, 'x')" = .error (.invalidPattern "%b") ∧
      parseWith ⟨1⟩ "a ? b !" = .error (.invalidToken (.strayCharacter '?') ⟨1, 3⟩) := by
  refine ⟨?_, ?_, ?_⟩
  · let tree : Phrase (.chain .or) :=
      .chain (.chain (.leaf (.reflected (.integer 5) .lessOrEqual (.path "a" ["b"]) rfl)) .done)
        .done
    have hclean : (TokenStream.ofText "5 <= a.b").Clean := by
      unfold TokenStream.Clean
      decide +kernel
    have hkinds : tree.kinds = (TokenStream.ofText "5 <= a.b").kinds := by
      decide +kernel
    have hsound : ∀ l ∈ tree.leaves, l.Sound :=
      List.forall_mem_singleton.mpr trivial
    exact ((parseWith_exact ⟨0⟩ "5 <= a.b").1 _).mpr
      ⟨hclean, tree, hkinds, rfl, hsound, Nat.le_refl 0⟩
  · let list : Leaf := .member (.path "c" []) .inSet (.integer 1) [.text "x"]
    let tree : Phrase (.chain .or) :=
      .chain (.chain (.not (.leaf (.like (.path "a" []) false "%b"))) (.next (.leaf list) .done))
        .done
    have hclean : (TokenStream.ofText "NOT a LIKE '%b' AND c IN (1, 'x')").Clean := by
      unfold TokenStream.Clean
      decide +kernel
    have hkinds : tree.kinds = (TokenStream.ofText "NOT a LIKE '%b' AND c IN (1, 'x')").kinds := by
      decide +kernel
    have hunsound : ¬ (Leaf.like (.path "a" []) false "%b").Sound := by
      unfold Leaf.Sound
      decide
    obtain ⟨v, hv, herror⟩ := (parseWith_exact ⟨1⟩ _).2.1 tree [] _ [list] hclean hkinds
      (by decide) rfl (by simp) hunsound
    rw [herror]
    cases hv
    rfl
  · have htokens : (TokenStream.ofText "a ? b !").tokens =
        [⟨.word "a", "a", ⟨1, 1⟩⟩] ++ ⟨.invalid (.strayCharacter '?'), "?", ⟨1, 3⟩⟩ ::
          [⟨.word "b", "b", ⟨1, 5⟩⟩, ⟨.invalid (.strayCharacter '!'), "!", ⟨1, 7⟩⟩] := by
      decide +kernel
    exact (parseWith_exact ⟨1⟩ "a ? b !").2.2 _ _ _ _ htokens (by simp [Kind.error?]) rfl

end Grammar

end RowFilter
