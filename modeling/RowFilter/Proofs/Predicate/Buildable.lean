import RowFilter.Builder
import RowFilter.Json.Decode
import RowFilter.Proofs.Grammar.Exactness
import RowFilter.Proofs.Predicate.WellFormed

/-!
# The predicates that can be built

A predicate can be built by reading a filter, by decoding JSON, by the constructors and by taking
complements, in any order and to any depth. The main statement is that the predicates built in this
way are exactly the well-formed ones; so are the predicates on the stack after any run of building
steps.
-/

set_option autoImplicit false

namespace RowFilter

/-! ## Filters -/

namespace Grammar

/-- A leaf of the grammar stands for a well-formed predicate. -/
theorem Leaf.wellFormed_of_meaning {l : Leaf} {p : Predicate} (h : l.meaning = .ok p) :
    p.WellFormed := by
  cases l with
  | const b =>
    cases h
    exact Predicate.wellFormed_const _
  | test c op =>
    cases h
    exact Predicate.wellFormed_test _ _
  | member c op first more => exact Predicate.wellFormed_of_ofMembers (mapError_eq_ok.mp h)
  | like c negated raw =>
    rw [meaning] at h
    split at h
    · cases h
      rename_i pattern _
      cases pattern <;> cases negated <;> exact trivial
    · contradiction
  | compare c op v =>
    cases h
    exact Predicate.wellFormed_compare _ _ _
  | reflected v op c distinct =>
    cases h
    exact Predicate.wellFormed_compare _ _ _

/-- Negating, and joining two operands or more, keeps well-formedness. -/
theorem kept_wellFormed : Kept Predicate.WellFormed := by
  apply Kept.of_chain
  · intro p hp
    exact Predicate.wellFormed_not.mpr hp
  · intro op ps hlength hps
    exact Predicate.wellFormed_chain.mpr ⟨hlength, hps⟩

end Grammar

/-- A filter is read as a well-formed predicate, whatever the limit of nesting is. -/
theorem wellFormed_of_parseWith {config : Config} {text : String} {p : Predicate}
    (h : parseWith config text = .ok p) : p.WellFormed := by
  obtain ⟨-, t, -, hread⟩ := Grammar.parseWith_eq_ok_iff.mp h
  obtain ⟨-, hmeaning⟩ := Grammar.Phrase.read_eq_ok_iff.mp hread
  apply Grammar.Phrase.invariant Grammar.kept_wellFormed ?_ hmeaning
  intro l _ q hq
  exact l.wellFormed_of_meaning hq

/-! ## Decoding -/

/-- Only the choices can be chosen. -/
theorem Json.mem_of_choice {α : Type} {choices : List α} {tag : α → String} {j : Json} {a : α}
    (h : Json.choice choices tag j = .ok a) : a ∈ choices := by
  have hnamed : ∀ s, Json.choice.named choices tag s = .ok a → a ∈ choices := by
    intro s hs
    unfold Json.choice.named at hs
    split at hs
    · rename_i b hb
      cases hs
      exact List.mem_of_find?_eq_some hb
    · contradiction
  unfold Json.choice at h
  split at h
  · exact hnamed _ h
  · exact hnamed _ h
  · contradiction

namespace Predicate

/-- A constant that is decoded is well formed. -/
theorem wellFormed_of_constOfJson {j : Json} {p : Predicate} (h : constOfJson j = .ok p) :
    p.WellFormed := by
  have hmem := Json.mem_of_choice h
  simp only [List.mem_cons, List.not_mem_nil, or_false] at hmem
  rcases hmem with rfl | rfl
  · exact wellFormed_const _
  · exact wellFormed_const _

variable {reader : Json.Reader}

/-- Of the leaves on a column only membership tests can be ill formed, and they are checked. -/
theorem wellFormed_of_leafOfFields {tag : String} {fs : List (String × Json)} {p : Predicate}
    (h : leafOfFields reader tag fs = .ok p) : p.WellFormed := by
  unfold leafOfFields at h
  obtain ⟨op, -, h⟩ := bind_eq_ok.mp h
  obtain ⟨term, -, h⟩ := bind_eq_ok.mp h
  obtain ⟨column, -, h⟩ := bind_eq_ok.mp h
  split at h
  · obtain ⟨_, -, h⟩ := bind_eq_ok.mp h
    cases h
    exact wellFormed_test _ _
  · obtain ⟨_, -, h⟩ := bind_eq_ok.mp h
    obtain ⟨_, -, h⟩ := bind_eq_ok.mp h
    obtain ⟨_, -, h⟩ := bind_eq_ok.mp h
    cases h
    exact wellFormed_compare _ _ _
  · obtain ⟨_, -, h⟩ := bind_eq_ok.mp h
    obtain ⟨_, -, h⟩ := bind_eq_ok.mp h
    obtain ⟨_, -, h⟩ := bind_eq_ok.mp h
    exact wellFormed_of_ofMembers (Grammar.mapError_eq_ok.mp h)
  · obtain ⟨_, -, h⟩ := bind_eq_ok.mp h
    obtain ⟨_, -, h⟩ := bind_eq_ok.mp h
    obtain ⟨_, -, h⟩ := bind_eq_ok.mp h
    cases h
    exact wellFormed_starts _ _ _
  · contradiction

/-- A leaf is well formed whether its fields stand in an object or in a list. -/
theorem wellFormed_of_leafOfJson {tag : String} {payload : Json} {p : Predicate}
    (h : leafOfJson reader tag payload = .ok p) : p.WellFormed := by
  obtain ⟨fs, -, h⟩ := bind_eq_ok.mp h
  exact wellFormed_of_leafOfFields h

/-- JSON is decoded as a well-formed predicate. The induction follows the decoder, with the lists of
operands as its second kind of value. -/
theorem wellFormed_of_ofJson {j : Json} {p : Predicate} (h : ofJson reader j = .ok p) :
    p.WellFormed := by
  -- both connectives decode their operands first and check their number afterwards
  have hchain (op : Connective) {items : List Json} {p : Predicate}
      (ih : ∀ ps, ofJsonAll reader items = .ok ps → ∀ q ∈ ps, q.WellFormed)
      (h : (ofJsonAll reader items >>= fun ps => (ofOperands op ps).mapError .invalid) = .ok p) :
      p.WellFormed := by
    obtain ⟨ps, hps, h⟩ := bind_eq_ok.mp h
    exact wellFormed_of_ofOperands (ih ps hps) (Grammar.mapError_eq_ok.mp h)
  refine ofJson.induct (fun j => ∀ p, ofJson reader j = .ok p → p.WellFormed)
    (fun js => ∀ ps, ofJsonAll reader js = .ok ps → ∀ q ∈ ps, q.WellFormed)
    ?not ?and ?or ?object ?list ?const ?nil ?cons j p h
  case not =>
    intro j ih p h
    rw [ofJson] at h
    cases hj : ofJson reader j with
    | error e =>
      rw [hj] at h
      contradiction
    | ok q =>
      rw [hj] at h
      cases h
      exact ih q hj
  case and =>
    intro items ih p h
    rw [ofJson] at h
    exact hchain .and ih h
  case or =>
    intro items ih p h
    rw [ofJson] at h
    exact hchain .or ih h
  case object =>
    intro tag fs htag p h
    rw [ofJson] at h
    · exact wellFormed_of_leafOfJson h
    · exact htag
  case list =>
    intro tag items hnot hand hor p h
    rw [ofJson] at h
    · exact wellFormed_of_leafOfJson h
    · exact hnot
    · exact hand
    · exact hor
  case const =>
    intro j hnot hand hor hobject hlist p h
    rw [ofJson.eq_6 reader j hnot hand hor hobject hlist] at h
    exact wellFormed_of_constOfJson h
  case nil =>
    intro ps h
    cases h
    simp
  case cons =>
    intro j js ihj ihjs ps h
    obtain ⟨q, hq, h⟩ := bind_eq_ok.mp h
    obtain ⟨qs, hqs, h⟩ := bind_eq_ok.mp h
    cases h
    intro r hr
    rcases List.mem_cons.mp hr with rfl | hr
    · exact ihj r hq
    · exact ihjs qs hqs r hr

/-! ## All ways of building -/

/-- The predicates that can be built. -/
inductive Buildable : Predicate → Prop
  /-- A filter is read, with any limit of nesting. -/
  | parse {config : Config} {text : String} {p : Predicate} (h : parseWith config text = .ok p) :
    Buildable p
  /-- A JSON value is decoded, with any reader. -/
  | decode {reader : Json.Reader} {j : Json} {p : Predicate} (h : ofJson reader j = .ok p) :
    Buildable p
  | const (value : Bool) : Buildable (.const value)
  | test (op : ColumnTest) (column : Column) : Buildable (.test op column)
  | compare (op : Comparison) (column : Column) (value : Literal) :
    Buildable (.compare op column value)
  /-- A set is made of any literals, if they make up one. -/
  | member {op : Membership} {column : Column} {values : List Literal} {p : Predicate}
    (h : ofMembers op column values = .ok p) : Buildable p
  | starts (op : StartTest) (column : Column) (stem : String) : Buildable (.starts op column stem)
  | not {p : Predicate} (hp : Buildable p) : Buildable p.not
  /-- A chain is made of any operands that can be built, if there are enough. -/
  | chain {op : Connective} {ps : List Predicate} {p : Predicate}
    (hps : ∀ q ∈ ps, Buildable q) (h : ofOperands op ps = .ok p) : Buildable p
  | negate {p : Predicate} (hp : Buildable p) : Buildable p.negate

/-- Every way of building keeps well-formedness. -/
theorem Buildable.wellFormed {p : Predicate} (h : p.Buildable) : p.WellFormed := by
  induction h with
  | parse h => exact wellFormed_of_parseWith h
  | decode h => exact wellFormed_of_ofJson h
  | const b => exact wellFormed_const b
  | test op c => exact wellFormed_test op c
  | compare op c v => exact wellFormed_compare op c v
  | member h => exact wellFormed_of_ofMembers h
  | starts op c stem => exact wellFormed_starts op c stem
  | not _ ih => exact wellFormed_not.mpr ih
  | chain _ h ih => exact wellFormed_of_ofOperands ih h
  | negate _ ih => exact wellFormed_negate ih

/-- A well-formed predicate is built by the constructors alone. -/
theorem buildable_of_wellFormed {p : Predicate} (h : p.WellFormed) : p.Buildable := by
  induction p with
  | const b => exact .const b
  | test op c => exact .test op c
  | compare op c v => exact .compare op c v
  | member op c s => exact .member (ofMembers_eq_ok_iff.mpr ⟨s, LiteralSet.ofList_members h, rfl⟩)
  | starts op c stem => exact .starts op c stem
  | not p ih => exact .not (ih h)
  | chain op ps ih =>
    obtain ⟨hlength, hps⟩ := wellFormed_chain.mp h
    refine .chain ?_ (ofOperands_eq_ok_iff.mpr ⟨hlength, rfl⟩)
    intro p hp
    exact ih p hp (hps p hp)

/-- Whatever way a predicate is built, all its chains have two operands or more and all its sets are
valid, at every depth; and every predicate with these properties can be built. -/
theorem buildable_iff_wellFormed (p : Predicate) : p.Buildable ↔ p.WellFormed :=
  ⟨Buildable.wellFormed, buildable_of_wellFormed⟩

end Predicate

/-! ## Building steps -/

namespace Builder

/-- A building step keeps all predicates on the stack well formed. -/
theorem wellFormed_of_step {st : Step} {stack stack' : Stack} (h : step st stack = .ok stack')
    (hstack : ∀ p ∈ stack, p.WellFormed) : ∀ p ∈ stack', p.WellFormed := by
  have hpush {p : Predicate} {rest : Stack} (hp : p.WellFormed) (hrest : ∀ q ∈ rest, q.WellFormed) :
      ∀ q ∈ p :: rest, q.WellFormed := List.forall_mem_cons.mpr ⟨hp, hrest⟩
  unfold step at h
  split at h
  · cases h
    exact hpush (Predicate.wellFormed_const _) hstack
  · cases h
    exact hpush (Predicate.wellFormed_test _ _) hstack
  · cases h
    exact hpush (Predicate.wellFormed_compare _ _ _) hstack
  · split at h
    · rename_i p hp
      cases h
      exact hpush (Predicate.wellFormed_of_ofMembers hp) hstack
    · contradiction
  · cases h
    exact hpush (Predicate.wellFormed_starts _ _ _) hstack
  · split at h
    · rename_i p hp
      cases h
      exact hpush (wellFormed_of_parseWith hp) hstack
    · contradiction
  · cases h
    obtain ⟨hp, hrest⟩ := List.forall_mem_cons.mp hstack
    exact hpush (Predicate.wellFormed_not.mpr hp) hrest
  · cases h
    obtain ⟨hp, hrest⟩ := List.forall_mem_cons.mp hstack
    exact hpush (Predicate.wellFormed_negate hp) hrest
  · split at h
    · contradiction
    · split at h
      · rename_i p hp
        cases h
        -- operands are taken from the top, and what is below them stays
        refine hpush (Predicate.wellFormed_of_ofOperands ?_ hp) ?_
        · intro q hq
          exact hstack q (List.mem_of_mem_take (List.mem_reverse.mp hq))
        · intro q hq
          exact hstack q (List.mem_of_mem_drop hq)
      · contradiction
  · cases h
    obtain ⟨hp, hrest⟩ := List.forall_mem_cons.mp hstack
    exact hpush hp (hpush hp hrest)
  · cases h
    obtain ⟨hp, hrest⟩ := List.forall_mem_cons.mp hstack
    obtain ⟨hq, hrest⟩ := List.forall_mem_cons.mp hrest
    exact hpush hq (hpush hp hrest)
  · cases h
    exact (List.forall_mem_cons.mp hstack).2
  · contradiction

/-- After any run of building steps all predicates on the stack are well formed. -/
theorem wellFormed_of_run {steps : List Step} {stack : Stack}
    (hstack : ∀ p ∈ stack, p.WellFormed) : ∀ p ∈ run steps stack, p.WellFormed := by
  induction steps generalizing stack with
  | nil => exact hstack
  | cons st steps ih =>
    refine @ih ((step st stack).toOption.getD stack) ?_
    cases hstep : step st stack with
    | ok stack' => exact wellFormed_of_step hstep hstack
    | error e => exact hstack

end Builder

end RowFilter
