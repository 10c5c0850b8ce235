import RowFilter.Proofs.RoundTrip.Lines
import RowFilter.Proofs.RoundTrip.Reparse
import RowFilter.Proofs.Session.Composition
import RowFilter.Proofs.Session.Limit

/-!
# How much nesting the printer adds

A filter needs no parentheses for an `AND` below an `OR`, but the printer writes them for every
chain below a chain. A parenthesis of the filter can hide two such levels: the operands of its `OR`,
and itself below an `AND`. So the printed predicate nests at most twice as deeply as the filter, and
once more for the `AND`s of the outermost `OR`. Filters that are a tower of such parentheses need
all of it.
-/

set_option autoImplicit false

namespace RowFilter

open Grammar

/-! ## The bound -/

namespace Predicate

/-- A chain, or its only operand, nests no more deeply than its operands do in it. -/
theorem nesting_joined_le {op : Connective} {p : Predicate} {ps : List Predicate} {n : Nat}
    (h : ∀ q ∈ p :: ps, groupedNesting q q.nesting ≤ n) : (joined op p ps).nesting ≤ n := by
  cases ps with
  | nil => exact Nat.le_trans (le_groupedNesting p _) (h p List.mem_cons_self)
  | cons q qs => exact nestingAll_le_iff.mpr h

end Predicate

namespace Grammar

/-- How many levels the printer may write around a predicate of the symbol where the filter has
none: one for each kind of chain that it can be. -/
def Symbol.slack : Symbol → Nat
  | .operand => 0
  | .chain .and => 1
  | .chain .or => 2

/-- Each kind of chain may cost one level. -/
theorem Symbol.slack_chain (op : Connective) : (chain op).slack = (below op).slack + 1 := by
  cases op <;> rfl

/-- A leaf is printed without parentheses and negations. -/
theorem Leaf.groupedNesting_meaning {l : Leaf} {p : Predicate} (h : l.meaning = .ok p) :
    p.groupedNesting p.nesting = 0 := by
  cases l with
  | const b =>
    cases h
    rfl
  | test c op =>
    cases h
    rfl
  | member c op first more =>
    obtain ⟨s, -, rfl⟩ := Predicate.ofMembers_eq_ok_iff.mp (mapError_eq_ok.mp h)
    rfl
  | like c negated raw =>
    rw [meaning] at h
    split at h
    · rename_i pattern _
      cases h
      cases pattern <;> rfl
    · contradiction
  | compare c op value =>
    cases h
    rfl
  | reflected value op c distinct =>
    cases h
    rfl

/-- A bound on the operands of a chain is a bound on the chain, which need not be one. -/
theorem Phrase.nesting_chain_le {op : Connective} {first : Phrase (.below op)} {more : Rest op}
    {p : Predicate} {n : Nat} (h : (Phrase.chain first more).meaning = .ok p)
    (hfirst : ∀ q, first.meaning = .ok q → q.groupedNesting q.nesting ≤ n)
    (hmore : ∀ qs, more.meaning = .ok qs → ∀ q ∈ qs, q.groupedNesting q.nesting ≤ n) :
    p.nesting ≤ n := by
  obtain ⟨q, hq, hrest⟩ := bind_eq_ok.mp h
  obtain ⟨qs, hqs, hp⟩ := bind_eq_ok.mp hrest
  cases hp
  exact Predicate.nesting_joined_le (List.forall_mem_cons.mpr ⟨hfirst q hq, hmore qs hqs⟩)

mutual

/-- As an operand the predicate of a tree nests at most twice as deeply as the tree, but for the
levels of its own symbol. A negation adds one level to both, a group pays for the two levels of the
`OR` in it, and a chain is one level above its operands. -/
theorem Phrase.groupedNesting_le {s : Symbol} :
    {t : Phrase s} → {p : Predicate} → t.meaning = .ok p →
      p.groupedNesting p.nesting ≤ 2 * t.depth + s.slack
  | .leaf l, p, h => by
    rw [l.groupedNesting_meaning h]
    exact Nat.zero_le _
  | .not t, _, h => by
    obtain ⟨q, hq, hp⟩ := bind_eq_ok.mp h
    cases hp
    have hle : q.groupedNesting q.nesting ≤ 2 * t.depth + 0 := t.groupedNesting_le hq
    show q.groupedNesting q.nesting + 1 ≤ 2 * (t.depth + 1) + 0
    omega
  | .group t, p, h => by
    have hle : p.groupedNesting p.nesting ≤ 2 * t.depth + 2 := t.groupedNesting_le h
    show p.groupedNesting p.nesting ≤ 2 * (t.depth + 1) + 0
    omega
  | @Phrase.chain op first more, p, h => by
    have hle : p.nesting ≤ 2 * max first.depth more.depth + (Symbol.below op).slack := by
      apply Phrase.nesting_chain_le h
      · intro q hq
        have := first.groupedNesting_le hq
        omega
      · intro qs hqs q hq
        have := more.groupedNesting_le hqs q hq
        omega
    -- parentheses around the chain itself take the level that its symbol has in addition
    have hgroup := p.groupedNesting_le p.nesting
    rw [Phrase.depth, Symbol.slack_chain]
    omega

/-- The same for the operands of a repetition. -/
theorem Rest.groupedNesting_le {op : Connective} :
    {t : Rest op} → {ps : List Predicate} → t.meaning = .ok ps →
      ∀ p ∈ ps, p.groupedNesting p.nesting ≤ 2 * t.depth + (Symbol.below op).slack
  | .done, _, h => by
    cases h
    exact List.forall_mem_nil _
  | .next t more, _, h => by
    obtain ⟨q, hq, hrest⟩ := bind_eq_ok.mp h
    obtain ⟨qs, hqs, hp⟩ := bind_eq_ok.mp hrest
    cases hp
    rw [Rest.depth, List.forall_mem_cons]
    constructor
    · have := t.groupedNesting_le hq
      omega
    · intro r hr
      have := more.groupedNesting_le hqs r hr
      omega

end

end Grammar

/-- A predicate that is read under a limit of nesting is printed with at most twice as many levels
and one more. -/
theorem nesting_le_of_parseWith {limit : Nat} {text : String} {p : Predicate}
    (h : parseWith ⟨limit⟩ text = .ok p) : p.nesting ≤ 2 * limit + 1 := by
  obtain ⟨f, -, rfl⟩ := Accepted.exists_of_parseWith h
  obtain ⟨_, t, p, _, hdepth, hmeaning⟩ := f
  cases t with
  | chain first more =>
    rw [Phrase.depth, Nat.max_le] at hdepth
    apply Phrase.nesting_chain_le hmeaning
    · intro q hq
      have hle : q.groupedNesting q.nesting ≤ 2 * first.depth + 1 := first.groupedNesting_le hq
      omega
    · intro qs hqs q hq
      have hle : q.groupedNesting q.nesting ≤ 2 * more.depth + 1 := more.groupedNesting_le hqs q hq
      omega

/-! ## The bound is reached -/

/-- A printed predicate that nests too deeply is given up for that. -/
theorem parseWith_render_tooDeep {p : Predicate} (hp : p.WellFormed) (hline : p.OneLine)
    (hscaled : p.Scaled) {limit : Nat} (hlt : limit < p.nesting) :
    ∃ position, parseWith ⟨limit⟩ p.render = .error (.nestingTooDeep limit position) := by
  have hread : parseWith ⟨p.nesting⟩ p.render = .ok p :=
    parseWith_render hp hline hscaled (Nat.le_refl _)
  rcases (Session.start ⟨limit⟩ p.render).readAll_cut (Nat.le_of_lt hlt) with hcut | heq
  · exact hcut
  · -- otherwise the limit would be no matter, and it would have to reach up to the nesting
    have hresult : parseWith ⟨limit⟩ p.render = .ok p :=
      (congrArg Reading.result heq).symm.trans hread
    obtain ⟨-, -, hle⟩ := conditions_of_parseWith_render hp hresult p.same_refl
    exact absurd hle (Nat.not_le.mpr hlt)

namespace Accepted

/-- The filter `t AND TRUE OR TRUE` for an operand `t`. -/
def floor {limit : Nat} (text : String) (t : Phrase .operand) (p : Predicate)
    (hspells : Spells True text.toList t.kinds) (hdepth : t.depth ≤ limit)
    (hmeaning : t.meaning = .ok p) : Accepted limit where
  text := text ++ " AND TRUE OR TRUE"
  tree :=
    .chain (.chain (.single .and t) (.ofList .and [.leaf (.const true)]))
      (.ofList .or [.leaf (.const true)])
  predicate := .chain .or [.chain .and [p, .const true], .const true]
  kinds_eq := by
    have htrue := Spells.keyword (.bool true)
    have hmore := (Spells.keyword (.connective .and)).prepend
      (htrue.prepend ((Spells.keyword (.connective .or)).prepend htrue))
    have htext : (text ++ " AND TRUE OR TRUE").toList = text.toList ++ ' ' :: (
        (Keyword.connective .and).text.toList ++ ' ' :: ((Keyword.bool true).text.toList ++
          ' ' :: ((Keyword.connective .or).text.toList ++
            ' ' :: (Keyword.bool true).text.toList))) := by
      rw [String.toList_append]
      rfl
    rw [htext, (hspells.append_blank hmore).kinds_eq ⟨trivial, trivial⟩]
    simp [Phrase.kinds, Rest.kinds, Rest.ofList, Leaf.kinds]
  depth_le := by
    simp [Phrase.depth, Rest.depth, Rest.ofList, hdepth]
  meaning_eq := by
    simp only [Phrase.meaning, Rest.ofList, Rest.meaning, Phrase.meaning_single, hmeaning]
    rfl

/-- A tower of floors, each of them the first operand of the next one, in parentheses. -/
def tower : (limit : Nat) → Accepted limit
  | 0 =>
    floor "TRUE" (.leaf (.const true)) (.const true) (.keyword (.bool true)) (Nat.le_refl 0) rfl
  | limit + 1 =>
    let below := tower limit
    floor ("(" ++ below.text ++ ")") below.group below.predicate below.spells_group
      below.depth_group_le below.meaning_group

/-- A floor is printed with one level for its `AND`, and one for what is below it if that is a
chain. -/
theorem nesting_floor (p : Predicate) :
    (Predicate.chain .or [.chain .and [p, .const true], .const true]).nesting =
      p.groupedNesting p.nesting + 1 := by
  simp [Predicate.nesting, Predicate.nestingAll, Predicate.groupedNesting, Predicate.isChain]

/-- A tower is printed with two levels for each floor and one more. -/
theorem nesting_tower (limit : Nat) : (tower limit).predicate.nesting = 2 * limit + 1 := by
  induction limit with
  | zero => rfl
  | succ limit ih =>
    have hchain : (tower limit).predicate.isChain = true := by
      cases limit <;> rfl
    have hfloor := nesting_floor (tower limit).predicate
    rw [Predicate.groupedNesting, if_pos hchain, ih] at hfloor
    exact hfloor

/-- A floor adds no line feed. -/
theorem oneLine_floor {p : Predicate} (hp : p.OneLine) :
    (Predicate.chain .or [.chain .and [p, .const true], .const true]).OneLine := by
  simp [Predicate.oneLine_chain, Predicate.oneLine_const, hp]

/-- There is no line feed in a tower. -/
theorem oneLine_tower (limit : Nat) : (tower limit).predicate.OneLine := by
  induction limit with
  | zero => exact oneLine_floor (Predicate.oneLine_const true)
  | succ limit ih => exact oneLine_floor ih

end Accepted

/-! ## Both together -/

/-- How much nesting the printer adds. If no single-quoted token of a filter holds a line feed, then
a predicate that was read under a limit of nesting is read back from its printed form under every
limit of at least twice as many levels and one more. No lower bound would do: for every limit there
is a filter whose printed form nests too deeply for twice as many levels. -/
theorem render_nesting (limit : Nat) :
    (∀ text p, parseWith ⟨limit⟩ text = .ok p →
      (∀ t ∈ (TokenStream.ofText text).tokens, ∀ raw, t.kind = .string raw →
        '\n' ∉ t.text.toList) →
      ∀ limit', 2 * limit + 1 ≤ limit' → parseWith ⟨limit'⟩ p.render = .ok p) ∧
    ∃ text p, parseWith ⟨limit⟩ text = .ok p ∧
      ∃ position,
        parseWith ⟨2 * limit⟩ p.render = .error (.nestingTooDeep (2 * limit) position) := by
  constructor
  · intro text p h hline limit' hle
    have hnesting := Nat.le_trans (nesting_le_of_parseWith h) hle
    exact parseWith_render (wellFormed_of_parseWith h) (oneLine_of_parseWith h hline)
      (scaled_of_parseWith h) hnesting
  · have hread := (Accepted.tower limit).parseWith_text
    refine ⟨_, _, hread, ?_⟩
    apply parseWith_render_tooDeep (wellFormed_of_parseWith hread) (Accepted.oneLine_tower limit)
      (scaled_of_parseWith hread)
    rw [Accepted.nesting_tower]
    exact Nat.lt_succ_self _

/-- `(a = 'b' AND FALSE OR TRUE) AND FALSE OR TRUE` needs one level of nesting and is printed with
three. -/
theorem render_nesting_one :
    let p : Predicate := .chain .or
      [.chain .and
          [.chain .or
              [.chain .and [.compare .equal ⟨"a"⟩ (.string "b"), .const false], .const true],
            .const false],
        .const true]
    parseWith ⟨1⟩ "(a = 'b' AND FALSE OR TRUE) AND FALSE OR TRUE" = .ok p ∧ p.nesting = 3 ∧
      parseWith ⟨3⟩ p.render = .ok p := by
  intro p
  let a : Phrase .operand := .leaf (.compare (.path "a" []) .equal (.text "b"))
  let no : Phrase .operand := .leaf (.const false)
  let yes : Phrase .operand := .leaf (.const true)
  let inner : Phrase (.chain .or) :=
    .chain (.chain (.single .and a) (.ofList .and [no])) (.ofList .or [yes])
  let outer : Phrase (.chain .or) :=
    .chain (.chain (.single .and (.group inner)) (.ofList .and [no])) (.ofList .or [yes])
  have hread : parseWith ⟨1⟩ "(a = 'b' AND FALSE OR TRUE) AND FALSE OR TRUE" = .ok p :=
    Accepted.parseWith_text ⟨_, outer, _, by decide +kernel, by decide, rfl⟩
  have hline : ∀ t ∈ (TokenStream.ofText "(a = 'b' AND FALSE OR TRUE) AND FALSE OR TRUE").tokens,
      '\n' ∉ t.text.toList := by
    decide +kernel
  exact ⟨hread, rfl, (render_nesting 1).1 _ _ hread (fun t ht _ _ => hline t ht) 3 (Nat.le_refl 3)⟩

end RowFilter
