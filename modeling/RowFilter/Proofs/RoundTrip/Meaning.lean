import RowFilter.Proofs.RoundTrip.Tree

/-!
# The meaning of the tree of a predicate

The tree of a scaled predicate stands for the predicate itself, scales included. If the tree of any
predicate stands for one that is the same up to scales, then the predicate is scaled: what is shown
without a point comes back as an integer, and so with another type.
-/

set_option autoImplicit false

namespace RowFilter

open Grammar

/-! ## Sameness -/

/-- Every literal is the same as itself. -/
theorem Literal.same_refl (v : Literal) : v.same v = true := by
  rw [same, beq_iff_eq]
  exact Std.ReflCmp.compare_self

/-- Literals that are the same have one type. -/
theorem Literal.type_eq_of_same {v w : Literal} (h : v.same w = true) : v.type = w.type :=
  type_eq_of_compare (beq_iff_eq.mp h)

/-- Every list of members is the same as itself. -/
theorem LiteralSet.sameMembers_refl (vs : List Literal) : sameMembers vs vs = true := by
  induction vs with
  | nil => rfl
  | cons v vs ih => rw [sameMembers, Literal.same_refl, ih, Bool.and_self]

/-- Every set is the same as itself. -/
theorem LiteralSet.same_refl (s : LiteralSet) : s.same s = true := by
  rw [same, sameMembers_refl, decide_eq_true rfl, Bool.and_self]

namespace Predicate

/-- Operands are the same as themselves if each of them is. -/
theorem sameAll_refl {ps : List Predicate} (h : ∀ p ∈ ps, p.same p = true) :
    sameAll ps ps = true := by
  induction ps with
  | nil => rfl
  | cons p ps ih =>
    obtain ⟨hp, hps⟩ := List.forall_mem_cons.mp h
    rw [sameAll, hp, ih hps, Bool.and_self]

/-- Every predicate is the same as itself. -/
theorem same_refl (p : Predicate) : p.same p = true := by
  induction p with
  | const b => simp [same]
  | test op c => simp [same]
  | compare op c v => simp [same, Literal.same_refl]
  | member op c s => simp [same, LiteralSet.same_refl]
  | starts op c stem => simp [same]
  | not p ih => exact ih
  | chain op ps ih => simp [same, sameAll_refl ih]

/-! ## Scaled predicates are read back -/

/-- The leaf of a valid set stands for the membership test, if all decimals in it have places. -/
theorem meaning_ofMembers {op : Membership} {c : Column} {s : LiteralSet} (hs : s.Valid)
    (hscaled : ∀ v ∈ s.members, v.Scaled) :
    (Leaf.ofMembers op c s.members).meaning = .ok (.member op c s) := by
  obtain ⟨v, vs, hmembers⟩ := List.exists_cons_of_ne_nil hs.nonempty
  rw [hmembers] at hscaled
  obtain ⟨hv, hvs⟩ := List.forall_mem_cons.mp hscaled
  have hvalues : (LiteralPhrase.ofLiteral v).value ::
      (vs.map LiteralPhrase.ofLiteral).map LiteralPhrase.value = s.members := by
    rw [hmembers, LiteralPhrase.value_ofLiteral hv, List.map_map]
    congr 1
    calc vs.map (LiteralPhrase.value ∘ LiteralPhrase.ofLiteral)
        = vs.map id := List.map_congr_left fun w hw => LiteralPhrase.value_ofLiteral (hvs w hw)
      _ = vs := List.map_id vs
  rw [hmembers, Leaf.ofMembers, Leaf.meaning, mapError_eq_ok, hvalues,
    ColumnPhrase.column_ofColumn, ofMembers_eq_ok_iff]
  exact ⟨s, LiteralSet.ofList_members hs, rfl⟩

/-- The tree of a start test stands for the test: the wildcard behind the escaped stem is the only
one. -/
theorem meaning_starts (op : StartTest) (c : Column) (stem : String) :
    (operand (starts op c stem)).meaning = .ok (.starts op c stem) := by
  rw [operand, Phrase.meaning, Leaf.meaning, String.toList_ofList, Pattern.ofRaw?_escape,
    ColumnPhrase.column_ofColumn, String.ofList_toList]
  cases op <;> rfl

/-- The tree of a chain stands for the chain, if those of its operands stand for them. -/
theorem meaning_ofOperands (op : Connective) {p : Predicate} {ps : List Predicate}
    (hlength : 2 ≤ (p :: ps).length) (h : ∀ q ∈ p :: ps, (operand q).meaning = .ok q) :
    (Phrase.ofOperands op (operand p) (operands ps)).meaning = .ok (chain op (p :: ps)) := by
  obtain ⟨hp, hps⟩ := List.forall_mem_cons.mp h
  rw [Phrase.meaning_ofOperands_eq_ok_iff]
  refine ⟨p, ps, hp, ?_, ?_⟩
  · rw [operands_eq_map, List.forall₂_map_left_iff, List.forall₂_same]
    exact hps
  · cases ps with
    | nil => contradiction
    | cons q qs => rfl

/-- The tree of a scaled predicate stands for the predicate. -/
theorem meaning_operand {p : Predicate} (hp : p.WellFormed) (hscaled : p.Scaled) :
    (operand p).meaning = .ok p := by
  induction p with
  | const b => rfl
  | test op c => rw [operand, Phrase.meaning, Leaf.meaning, ColumnPhrase.column_ofColumn]
  | compare op c v =>
    have hv : v.Scaled := hscaled v (List.mem_singleton_self v)
    rw [operand, Phrase.meaning, Leaf.meaning, ColumnPhrase.column_ofColumn,
      LiteralPhrase.value_ofLiteral hv]
  | member op c s => exact meaning_ofMembers hp hscaled
  | starts op c stem => exact meaning_starts op c stem
  | not p ih =>
    rw [operand, Phrase.meaning, ih hp hscaled]
    rfl
  | chain op ps ih =>
    have hlength := (wellFormed_chain.mp hp).1
    obtain ⟨p, ps, rfl, hps⟩ := hp.exists_cons
    rw [operand, Phrase.meaning]
    apply meaning_ofOperands op hlength
    intro q hq
    exact ih q hq (hps q hq) (scaled_chain.mp hscaled q hq)

/-! ## What is read back is scaled -/

/-- If the leaf of a set stands for the same test, all decimals in it have places. -/
theorem scaled_of_meaning_ofMembers {op : Membership} {c : Column} {s : LiteralSet}
    {q : Predicate} (hs : s.Valid) (h : (Leaf.ofMembers op c s.members).meaning = .ok q)
    (hsame : q.same (member op c s) = true) : ∀ v ∈ s.members, v.Scaled := by
  obtain ⟨v, vs, hmembers⟩ := List.exists_cons_of_ne_nil hs.nonempty
  rw [hmembers, Leaf.ofMembers, Leaf.meaning, mapError_eq_ok, ofMembers_eq_ok_iff] at h
  obtain ⟨t, ht, rfl⟩ := h
  have htype : t.type = s.type := by
    simp only [same, LiteralSet.same, Bool.and_eq_true, decide_eq_true_eq] at hsame
    exact hsame.2.1
  have htyped : ∀ w ∈ s.members, (LiteralPhrase.ofLiteral w).value.type = t.type := by
    obtain ⟨hv, hvs⟩ := List.forall_mem_cons.mp (LiteralSet.type_of_ofList ht)
    rw [List.forall_mem_map, List.forall_mem_map] at hvs
    rw [hmembers]
    exact List.forall_mem_cons.mpr ⟨hv, hvs⟩
  intro w hw
  apply LiteralPhrase.scaled_of_type_eq
  rw [htyped w hw, htype, hs.typed w hw]

/-- If the trees of some predicates stand for predicates that are the same as these one by one, then
so it is for each of them. -/
theorem exists_meaning_of_sameAll {ps qs : List Predicate}
    (h : List.Forall₂ (fun t q => Phrase.meaning t = .ok q) (operands ps) qs)
    (hsame : sameAll qs ps = true) :
    ∀ p ∈ ps, ∃ q, (operand p).meaning = .ok q ∧ q.same p = true := by
  induction ps generalizing qs with
  | nil => simp
  | cons p ps ih =>
    obtain ⟨q, qs', hq, hqs, rfl⟩ := List.forall₂_cons_left_iff.mp h
    rw [sameAll, Bool.and_eq_true] at hsame
    exact List.forall_mem_cons.mpr ⟨⟨q, hq, hsame.1⟩, ih hqs hsame.2⟩

/-- If the tree of a chain stands for the same chain, those of its operands stand for the same
operands. -/
theorem exists_meaning_of_same {op : Connective} {p : Predicate} {ps : List Predicate}
    {q : Predicate} (hlength : 2 ≤ (p :: ps).length)
    (h : (Phrase.ofOperands op (operand p) (operands ps)).meaning = .ok q)
    (hsame : q.same (chain op (p :: ps)) = true) :
    ∀ r ∈ p :: ps, ∃ r', (operand r).meaning = .ok r' ∧ r'.same r = true := by
  obtain ⟨p', ps', hp, hps, rfl⟩ := (Phrase.meaning_ofOperands_eq_ok_iff op _ _).mp h
  -- a second operand stays a second operand, so the answer is a chain too
  have hjoined : joined op p' ps' = chain op (p' :: ps') := by
    cases ps' with
    | nil =>
      have hnil := List.forall₂_nil_right_iff.mp hps
      cases ps with
      | nil => contradiction
      | cons r rs => contradiction
    | cons r rs => rfl
  rw [hjoined, same, Bool.and_eq_true] at hsame
  exact @exists_meaning_of_sameAll (p :: ps) _ (.cons hp hps) hsame.2

/-- If the tree stands for the same predicate, then the predicate is scaled. -/
theorem scaled_of_meaning {p q : Predicate} (hp : p.WellFormed) (h : (operand p).meaning = .ok q)
    (hsame : q.same p = true) : p.Scaled := by
  induction p generalizing q with
  | const b => exact fun v hv => by contradiction
  | test op c => exact fun v hv => by contradiction
  | compare op c v =>
    cases h
    simp only [same, Bool.and_eq_true] at hsame
    intro w hw
    cases List.mem_singleton.mp hw
    exact LiteralPhrase.scaled_of_type_eq (Literal.type_eq_of_same hsame.2)
  | member op c s => exact scaled_of_meaning_ofMembers hp h hsame
  | starts op c stem => exact fun v hv => by contradiction
  | not p ih =>
    obtain ⟨r, hr, hq⟩ := bind_eq_ok.mp h
    cases hq
    exact ih hp hr hsame
  | chain op ps ih =>
    have hlength := (wellFormed_chain.mp hp).1
    obtain ⟨p, ps, rfl, hps⟩ := hp.exists_cons
    rw [operand, Phrase.meaning] at h
    rw [scaled_chain]
    intro r hr
    obtain ⟨r', hmeaning, hsame'⟩ := exists_meaning_of_same hlength h hsame r hr
    exact ih r hr (hps r hr) hmeaning hsame'

/-! ## Whole filters -/

/-- A predicate means the same as an operand and as a whole filter. -/
theorem meaning_tree_eq (p : Predicate) : (tree p).meaning = (operand p).meaning := by
  cases hchain : p.isChain with
  | false =>
    rw [tree_of_not_isChain hchain, Phrase.meaning_alone]
  | true =>
    cases p with
    | chain op ps =>
      cases ps with
      | nil => rfl
      | cons p ps => rw [tree, operand, Phrase.meaning]
    | _ => contradiction

/-- The tree of a well-formed predicate whose decimals have places stands for the predicate. -/
theorem meaning_tree {p : Predicate} (hp : p.WellFormed) (hscaled : p.Scaled) :
    (tree p).meaning = .ok p := by
  rw [meaning_tree_eq]
  exact meaning_operand hp hscaled

/-- If the tree of a well-formed predicate stands for the same predicate, all decimals in it have
places. -/
theorem scaled_of_meaning_tree {p q : Predicate} (hp : p.WellFormed)
    (h : (tree p).meaning = .ok q) (hsame : q.same p = true) : p.Scaled := by
  rw [meaning_tree_eq] at h
  exact scaled_of_meaning hp h hsame

end Predicate

end RowFilter
