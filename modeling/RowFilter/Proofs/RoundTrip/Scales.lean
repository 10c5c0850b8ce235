import RowFilter.Proofs.Grammar.Exactness
import RowFilter.Proofs.Predicate.Parts
import RowFilter.Proofs.Token.Writing

/-!
# The scales of decimals in filters

A number in a text is a decimal only if a digit follows its point, so every decimal that is read has
a positive scale, and every filter is read as a scaled predicate. Numbers without a point are
integers. The scale of a decimal is the number of digits after its point, so it is no larger than
the text.
-/

set_option autoImplicit false

namespace RowFilter

/-- A decimal is written with digits after its point, as many as its scale says. -/
theorem Text.Writes.scale {w : List Char} {k : Kind} (h : Writes w k) :
    ∀ d, k = .decimal d → 0 < d.scale ∧ d.scale ≤ w.length := by
  intro d hk
  cases h with
  | @decimal sign ds fs _ _ _ _ hfs =>
    cases hk
    have hpos := List.length_pos_iff.mpr hfs
    refine ⟨Int.natCast_pos.mpr hpos, ?_⟩
    simp only [List.length_append, List.length_cons]
    omega
  | sign => exact absurd hk (Kind.ne_of_isSign (Lexeme.isSign_signKind _) rfl)
  | pair hpair => exact absurd hk (Kind.ne_of_isSign (Lexeme.isSign_of_pairKind? hpair) rfl)
  | _ => contradiction

/-- The decimals among the tokens of a text have positive scales, which are no larger than the
text. -/
theorem Text.scale_of_mem_kinds {cs : List Char} {d : Decimal} (h : .decimal d ∈ kinds cs) :
    0 < d.scale ∧ d.scale ≤ cs.length := by
  obtain ⟨w, hlength, hwrites⟩ := exists_writes_of_mem_kinds h rfl
  obtain ⟨hpos, hle⟩ := hwrites.scale d rfl
  exact ⟨hpos, by omega⟩

namespace Grammar

/-- A decimal is written as a decimal. -/
theorem LiteralPhrase.kind_of_value {v : LiteralPhrase} {d : Decimal} (h : v.value = .decimal d) :
    v.kind = .decimal d := by
  cases v with
  | decimal e =>
    cases h
    rfl
  | _ => contradiction

/-- The decimals of a leaf are among its tokens, with their scales. -/
theorem Leaf.decimal_mem_kinds {l : Leaf} {p : Predicate} (h : l.meaning = .ok p) {d : Decimal}
    (hd : .decimal d ∈ p.literals) : .decimal d ∈ l.kinds := by
  cases l with
  | const b =>
    cases h
    contradiction
  | test c op =>
    cases h
    contradiction
  | member c op first more =>
    obtain ⟨s, hs, rfl⟩ := Predicate.ofMembers_eq_ok_iff.mp (mapError_eq_ok.mp h)
    have hd : .decimal d ∈ s.members := hd
    have hlist : .decimal d ∈ LiteralPhrase.listKinds first more := by
      rcases List.mem_cons.mp (LiteralSet.members_subset_of_ofList hs hd) with hfirst | hmore
      · rw [← LiteralPhrase.kind_of_value hfirst.symm]
        exact List.mem_cons_self
      · obtain ⟨w, hw, hvalue⟩ := List.mem_map.mp hmore
        rw [← LiteralPhrase.kind_of_value hvalue]
        apply List.mem_cons_of_mem
        exact List.mem_flatMap.mpr ⟨w, hw, List.mem_cons_of_mem _ (List.mem_singleton_self _)⟩
    simp [kinds, hlist]
  | like c negated raw =>
    rw [meaning] at h
    split at h
    · rename_i pattern _
      cases h
      cases pattern with
      | equals value =>
        cases List.mem_singleton.mp hd
      | startsWith stem => contradiction
    · contradiction
  | compare c op value =>
    cases h
    rw [← LiteralPhrase.kind_of_value (List.mem_singleton.mp hd).symm]
    simp [kinds]
  | reflected value op c distinct =>
    cases h
    rw [← LiteralPhrase.kind_of_value (List.mem_singleton.mp hd).symm]
    simp [kinds]

/-- Negating and joining adds no decimals. -/
theorem kept_decimals (ks : List Kind) :
    Kept fun p => ∀ d, .decimal d ∈ p.literals → .decimal d ∈ ks := by
  apply Kept.of_chain
  · intro p hp
    exact hp
  · intro op ps _ hps d hd
    have hd : .decimal d ∈ Predicate.literalsAll ps := hd
    rw [Predicate.literalsAll_eq_flatMap] at hd
    obtain ⟨p, hp, hdp⟩ := List.mem_flatMap.mp hd
    exact hps p hp d hdp

end Grammar

/-- A decimal in a filter is a token of the text, so its scale is positive and no larger than the
text. -/
theorem scale_of_parseWith {config : Config} {text : String} {p : Predicate}
    (h : parseWith config text = .ok p) {d : Decimal} (hd : .decimal d ∈ p.literals) :
    0 < d.scale ∧ d.scale ≤ text.toList.length := by
  obtain ⟨-, t, hkinds, hread⟩ := Grammar.parseWith_eq_ok_iff.mp h
  obtain ⟨-, hmeaning⟩ := Grammar.Phrase.read_eq_ok_iff.mp hread
  have hmem : .decimal d ∈ t.kinds := by
    apply Grammar.Phrase.invariant (Grammar.kept_decimals t.kinds) ?_ hmeaning d hd
    intro l hl q hq e he
    exact t.mem_kinds_of_leaf (l.decimal_mem_kinds hq he) hl
  rw [hkinds, TokenStream.kinds_ofText] at hmem
  exact Text.scale_of_mem_kinds hmem

/-- Every filter is read as a scaled predicate. -/
theorem scaled_of_parseWith {config : Config} {text : String} {p : Predicate}
    (h : parseWith config text = .ok p) : p.Scaled := by
  rintro v hv d rfl
  exact (scale_of_parseWith h hv).1

end RowFilter
