import RowFilter.Proofs.Grammar.Exactness
import RowFilter.Proofs.Predicate.Parts
import RowFilter.Proofs.RoundTrip.Column
import RowFilter.Proofs.Session.Respelling

/-!
# Line feeds in filters

A word and a name in double quotes hold no line feed. Single-quoted text holds one only after a
backslash. If no single-quoted token of a filter holds one, then no text of the predicate does:
resolving escapes, taking off the wildcard and joining the segments of a path add none.
-/

set_option autoImplicit false

namespace RowFilter

/-! ## Tokens -/

/-- The text in a word, a name or a string holds no line feed. -/
def Kind.OneLine : Kind → Prop
  | word name => '\n' ∉ name.toList
  | quotedName name => '\n' ∉ name.toList
  | string raw => '\n' ∉ raw.toList
  | _ => True

/-- There is no line feed in a sign. -/
theorem Kind.oneLine_of_isSign {k : Kind} (h : k.isSign = true) : k.OneLine := by
  cases k <;> first | exact trivial | contradiction

/-- Only strings can be written with a line feed. -/
theorem Text.Writes.oneLine {w : List Char} {k : Kind} (h : Writes w k)
    (hstring : ∀ raw, k = .string raw → '\n' ∉ w) : k.OneLine := by
  cases h with
  | keyword => exact trivial
  | @word w hword =>
    rw [Kind.OneLine, String.toList_ofList]
    exact Column.lineFeed_not_mem_of_isWord hword
  | integer => exact trivial
  | decimal => exact trivial
  | @string cs =>
    have htext := hstring _ rfl
    rw [Kind.OneLine, String.toList_ofList]
    intro hbody
    exact htext (List.mem_append_left _ (List.mem_cons_of_mem _ hbody))
  | quotedName _ hlineFeed =>
    rw [Kind.OneLine, String.toList_ofList]
    exact hlineFeed
  | sign => exact Kind.oneLine_of_isSign (Lexeme.isSign_signKind _)
  | pair hpair => exact Kind.oneLine_of_isSign (Lexeme.isSign_of_pairKind? hpair)

/-! ## Texts in tokens -/

namespace Text

/-- What two texts are made of is what they are made of together. -/
theorem append_subset_append {cs ds cs' ds' : List Char} (hcs : cs ⊆ cs') (hds : ds ⊆ ds') :
    cs ++ ds ⊆ cs' ++ ds' :=
  List.append_subset.mpr
    ⟨List.subset_append_of_subset_left _ hcs, List.subset_append_of_subset_right _ hds⟩

/-- Resolving an escape adds no characters. -/
theorem resolve_subset (c : Char) : resolve c ⊆ ['\\', c] := by
  unfold resolve
  split
  · exact List.subset_cons_self _ _
  · exact List.Subset.refl _

/-- Resolving escapes only drops characters. -/
theorem unescape_subset (cs : List Char) : unescape cs ⊆ cs := by
  fun_induction unescape cs with
  | case1 => exact List.Subset.refl _
  | case2 c cs ih => exact append_subset_append (resolve_subset c) ih
  | case3 c cs _ ih => exact List.cons_subset_cons c ih

/-- A character of a joined text stands in the separator or in a part. -/
theorem mem_join {separator : String} {parts : List String} {c : Char}
    (h : c ∈ (join separator parts).toList) :
    c ∈ separator.toList ∨ ∃ part ∈ parts, c ∈ part.toList := by
  fun_induction join separator parts with
  | case1 => contradiction
  | case2 part => exact Or.inr ⟨part, List.mem_singleton_self part, h⟩
  | case3 part next parts ih =>
    rw [String.toList_append, String.toList_append, List.mem_append, List.mem_append] at h
    rcases h with (hpart | hseparator) | hrest
    · exact Or.inr ⟨part, List.mem_cons_self, hpart⟩
    · exact Or.inl hseparator
    · obtain hseparator | ⟨q, hq, hc⟩ := ih hrest
      · exact Or.inl hseparator
      · exact Or.inr ⟨q, List.mem_cons_of_mem _ hq, hc⟩

end Text

namespace Pattern

/-- The text that a pattern asks for, whole or at the beginning. -/
def text : Pattern → String
  | equals value => value
  | startsWith stem => stem

/-- Characters in front of a pattern stand in front of its text. -/
theorem text_prepend (cs : List Char) (p : Pattern) :
    (p.prepend cs).text = String.ofList cs ++ p.text := by
  cases p <;> rfl

/-- A pattern only has characters of its raw body. -/
theorem text_subset {cs : List Char} {p : Pattern} (h : ofRaw? cs = some p) :
    p.text.toList ⊆ cs := by
  fun_induction ofRaw? cs generalizing p with
  | case1 =>
    cases h
    exact List.Subset.refl _
  | case2 =>
    cases h
    exact List.nil_subset _
  | case3 => contradiction
  | case4 c cs ih =>
    obtain ⟨q, hq, rfl⟩ := Option.map_eq_some_iff.mp h
    rw [text_prepend, String.toList_append, String.toList_ofList]
    exact Text.append_subset_append (Text.resolve_subset c) (ih hq)
  | case5 c cs _ _ _ ih =>
    obtain ⟨q, hq, rfl⟩ := Option.map_eq_some_iff.mp h
    rw [text_prepend, String.toList_append, String.toList_ofList]
    exact List.cons_subset_cons c (ih hq)

end Pattern

/-! ## Texts in leaves -/

namespace Grammar

/-- Resolving escapes adds no line feed. -/
theorem lineFeed_not_mem_unescaped {raw : String} (h : '\n' ∉ raw.toList) :
    '\n' ∉ (Kind.unescaped raw).toList := by
  rw [Kind.unescaped, String.toList_ofList]
  exact fun hmem => h (Text.unescape_subset _ hmem)

/-- There is no line feed in a column if there is none in its tokens. -/
theorem ColumnPhrase.lineFeed_not_mem {c : ColumnPhrase} (h : ∀ k ∈ c.kinds, k.OneLine) :
    '\n' ∉ c.column.name.toList := by
  cases c with
  | path first more =>
    intro hmem
    rcases Text.mem_join hmem with hdot | ⟨segment, hsegment, hlineFeed⟩
    · revert hdot
      decide
    · obtain ⟨hfirst, hmore⟩ := List.forall_mem_cons.mp h
      rcases List.mem_cons.mp hsegment with rfl | hsegment
      · exact hfirst hlineFeed
      · have hkind : Kind.word segment ∈ segmentKinds more :=
          List.mem_flatMap.mpr ⟨segment, hsegment, List.mem_cons_of_mem _ List.mem_cons_self⟩
        exact hmore _ hkind hlineFeed
  | quoted name => exact h _ (List.mem_singleton_self _)
  | text raw => exact lineFeed_not_mem_unescaped (h _ (List.mem_singleton_self (Kind.string raw)))

/-- There is no line feed in a literal if there is none in its token. -/
theorem LiteralPhrase.oneLine_value {v : LiteralPhrase} (h : v.kind.OneLine) :
    v.value.OneLine := by
  rintro s hs
  cases v with
  | text raw =>
    cases hs
    exact lineFeed_not_mem_unescaped h
  | _ => contradiction

/-- For a predicate with one column there is one name to look at. -/
theorem oneLine_of_columns_eq {p : Predicate} {c : Column} (hcolumns : p.columns = [c])
    (hname : '\n' ∉ c.name.toList) (hliterals : ∀ v ∈ p.literals, v.OneLine)
    (hstems : ∀ s ∈ p.stems, '\n' ∉ s.toList) : p.OneLine := by
  rw [Predicate.oneLine_iff, hcolumns]
  exact ⟨List.forall_mem_singleton.mpr hname, hliterals, hstems⟩

/-- There is no line feed in the predicate of a pattern if there is none in the column and the text.
-/
theorem oneLine_toPredicate {pattern : Pattern} {c : Column} (negated : Bool)
    (hname : '\n' ∉ c.name.toList) (htext : '\n' ∉ pattern.text.toList) :
    (pattern.toPredicate negated c).OneLine := by
  cases pattern with
  | equals value =>
    apply oneLine_of_columns_eq rfl hname
    · intro v hv
      cases List.mem_singleton.mp hv
      rintro s hs
      cases hs
      exact htext
    · exact List.forall_mem_nil _
  | startsWith stem =>
    apply oneLine_of_columns_eq rfl hname
    · exact List.forall_mem_nil _
    · intro s hs
      cases List.mem_singleton.mp hs
      exact htext

/-- There is no line feed in a comparison if there is none in its tokens. -/
theorem oneLine_compare {c : ColumnPhrase} {value : LiteralPhrase} (op : Comparison)
    (hc : ∀ k ∈ c.kinds, k.OneLine) (hvalue : value.kind.OneLine) :
    (Predicate.compare op c.column value.value).OneLine := by
  apply oneLine_of_columns_eq rfl (ColumnPhrase.lineFeed_not_mem hc)
  · intro v hv
    cases List.mem_singleton.mp hv
    exact LiteralPhrase.oneLine_value hvalue
  · exact List.forall_mem_nil _

/-- A leaf of tokens without line feeds stands for a predicate without line feeds. -/
theorem Leaf.oneLine_of_meaning {l : Leaf} {p : Predicate} (h : l.meaning = .ok p)
    (hkinds : ∀ k ∈ l.kinds, k.OneLine) : p.OneLine := by
  cases l with
  | const b =>
    cases h
    exact Predicate.oneLine_const b
  | test c op =>
    cases h
    obtain ⟨hc, -⟩ := List.forall_mem_append.mp hkinds
    exact oneLine_of_columns_eq rfl (ColumnPhrase.lineFeed_not_mem hc) (List.forall_mem_nil _)
      (List.forall_mem_nil _)
  | member c op first more =>
    obtain ⟨s, hs, rfl⟩ := Predicate.ofMembers_eq_ok_iff.mp (mapError_eq_ok.mp h)
    simp only [kinds, LiteralPhrase.listKinds, List.forall_mem_append, List.forall_mem_cons,
      List.forall_mem_flatMap] at hkinds
    obtain ⟨⟨⟨hc, -⟩, -, hfirst, hmore⟩, -⟩ := hkinds
    apply oneLine_of_columns_eq rfl (ColumnPhrase.lineFeed_not_mem hc)
    · intro v hv
      rcases List.mem_cons.mp (LiteralSet.members_subset_of_ofList hs hv) with rfl | hv
      · exact LiteralPhrase.oneLine_value hfirst
      · obtain ⟨w, hw, rfl⟩ := List.mem_map.mp hv
        exact LiteralPhrase.oneLine_value (hmore w hw).2.1
    · exact List.forall_mem_nil _
  | like c negated raw =>
    obtain ⟨hhead, hraw⟩ := List.forall_mem_append.mp hkinds
    obtain ⟨hc, -⟩ := List.forall_mem_append.mp hhead
    rw [meaning] at h
    split at h
    · rename_i pattern hpattern
      cases h
      apply oneLine_toPredicate negated (ColumnPhrase.lineFeed_not_mem hc)
      have hraw : '\n' ∉ raw.toList := hraw _ (List.mem_singleton_self (Kind.string raw))
      exact fun hmem => hraw (Pattern.text_subset hpattern hmem)
    · contradiction
  | compare c op value =>
    cases h
    obtain ⟨hc, hvalue⟩ := List.forall_mem_append.mp hkinds
    exact oneLine_compare op hc (hvalue _ (List.mem_cons_of_mem _ List.mem_cons_self))
  | reflected value op c distinct =>
    cases h
    obtain ⟨hvalue, hrest⟩ := List.forall_mem_cons.mp hkinds
    exact oneLine_compare (mirrored op) (List.forall_mem_cons.mp hrest).2 hvalue

/-- Negating and joining adds no line feed. -/
theorem kept_oneLine : Kept Predicate.OneLine := by
  apply Kept.of_chain
  · intro p hp
    exact hp
  · intro op ps _ hps
    exact Predicate.oneLine_chain.mpr hps

end Grammar

/-! ## Filters -/

/-- If no single-quoted token of a filter holds a line feed, then no text of its predicate does. -/
theorem oneLine_of_parseWith {config : Config} {text : String} {p : Predicate}
    (h : parseWith config text = .ok p)
    (hline : ∀ t ∈ (TokenStream.ofText text).tokens, ∀ raw, t.kind = .string raw →
      '\n' ∉ t.text.toList) : p.OneLine := by
  obtain ⟨hclean, t, hkinds, hread⟩ := Grammar.parseWith_eq_ok_iff.mp h
  obtain ⟨-, hmeaning⟩ := Grammar.Phrase.read_eq_ok_iff.mp hread
  have htokens : ∀ k ∈ t.kinds, k.OneLine := by
    rw [hkinds, TokenStream.kinds, List.forall_mem_map]
    intro u hu
    exact (TokenStream.writes_of_mem hu (hclean u hu)).oneLine (hline u hu)
  apply Grammar.Phrase.invariant Grammar.kept_oneLine ?_ hmeaning
  intro l hl q hq
  exact l.oneLine_of_meaning hq fun k hk => htokens k (t.mem_kinds_of_leaf hk hl)

end RowFilter
