import RowFilter.Proofs.Predicate.WellFormed
import RowFilter.Proofs.Token.Number

/-!
# What a predicate is made of

The columns, literals and stems that occur in the leaves of a predicate, and the conditions on them
that decide how the predicate is read after it was printed. A predicate keeps to one line if no text
in it holds a line feed; it is scaled if every decimal in it has a positive scale, so that it is
shown with a point. A decimal that is shown without a point looks like an integer and may be too
large for one; a predicate is legible if this does not happen and it keeps to one line.
-/

set_option autoImplicit false

namespace RowFilter

namespace Literal

/-- The decimal of a decimal literal. -/
def decimal? : Literal → Option Decimal
  | decimal d => some d
  | _ => none

/-- A decimal literal has a positive scale. -/
def Scaled (v : Literal) : Prop :=
  ∀ d, v = decimal d → 0 < d.scale

/-- A string literal has no line feed. -/
def OneLine (v : Literal) : Prop :=
  ∀ s, v = string s → '\n' ∉ s.toList

/-- A string literal has no line feed, and a decimal literal that is shown without a point is in the
range of integers. -/
def Legible : Literal → Prop
  | boolean _ => True
  | integer _ => True
  | decimal d => 0 < d.scale ∨ Text.fitsInt64 d.whole = true
  | string s => '\n' ∉ s.toList

/-- A literal without a line feed is legible, if it is no decimal without places. -/
theorem OneLine.legible {v : Literal} (h : v.OneLine) (hscaled : v.Scaled) : v.Legible := by
  cases v with
  | boolean b => exact trivial
  | integer n => exact trivial
  | decimal d => exact Or.inl (hscaled d rfl)
  | string s => exact h s rfl

end Literal

namespace Predicate

mutual

/-- The literals of the leaves from left to right. -/
def literals : Predicate → List Literal
  | compare _ _ value => [value]
  | member _ _ values => values.members
  | not operand => literals operand
  | chain _ operands => literalsAll operands
  | _ => []

/-- The literals of all the predicates. -/
def literalsAll : List Predicate → List Literal
  | [] => []
  | p :: ps => literals p ++ literalsAll ps

end

mutual

/-- The stems of the start tests from left to right. -/
def stems : Predicate → List String
  | starts _ _ stem => [stem]
  | not operand => stems operand
  | chain _ operands => stemsAll operands
  | _ => []

/-- The stems of all the predicates. -/
def stemsAll : List Predicate → List String
  | [] => []
  | p :: ps => stems p ++ stemsAll ps

end

/-- The literals of operands stand one after the other. -/
theorem literalsAll_eq_flatMap (ps : List Predicate) : literalsAll ps = ps.flatMap literals := by
  induction ps with
  | nil => rfl
  | cons p ps ih => simp [literalsAll, ih]

/-- The stems of operands stand one after the other. -/
theorem stemsAll_eq_flatMap (ps : List Predicate) : stemsAll ps = ps.flatMap stems := by
  induction ps with
  | nil => rfl
  | cons p ps ih => simp [stemsAll, ih]

/-- The texts in a predicate: names of columns, string literals and stems. -/
def texts (p : Predicate) : List String :=
  p.columns.map Column.name ++ (p.literals.filterMap Literal.string? ++ p.stems)

/-- The decimals in a predicate. -/
def decimals (p : Predicate) : List Decimal :=
  p.literals.filterMap Literal.decimal?

/-- No text in the predicate holds a line feed. -/
def OneLine (p : Predicate) : Prop :=
  ∀ s ∈ p.texts, '\n' ∉ s.toList

/-- Every decimal literal has a positive scale. -/
def Scaled (p : Predicate) : Prop :=
  ∀ v ∈ p.literals, v.Scaled

/-- The predicate is printed without invalid tokens. -/
def Legible (p : Predicate) : Prop :=
  (∀ c ∈ p.columns, '\n' ∉ c.name.toList) ∧ (∀ v ∈ p.literals, v.Legible) ∧
    ∀ s ∈ p.stems, '\n' ∉ s.toList

/-- The decimals of a predicate are those among its literals. -/
theorem mem_decimals {p : Predicate} {d : Decimal} :
    d ∈ p.decimals ↔ .decimal d ∈ p.literals := by
  rw [decimals, List.mem_filterMap]
  constructor
  · rintro ⟨v, hv, hvd⟩
    cases v with
    | decimal e =>
      cases hvd
      exact hv
    | _ => contradiction
  · intro h
    exact ⟨_, h, rfl⟩

/-- All literals are scaled exactly if every decimal has a place at least. -/
theorem scaled_iff {p : Predicate} : p.Scaled ↔ ∀ d ∈ p.decimals, 1 ≤ d.scale := by
  constructor
  · intro h d hd
    exact h _ (mem_decimals.mp hd) d rfl
  · rintro h v hv d rfl
    exact h d (mem_decimals.mpr hv)

/-- There is no line feed in a predicate exactly if there is none in its names, its strings and its
stems. -/
theorem oneLine_iff {p : Predicate} :
    p.OneLine ↔ (∀ c ∈ p.columns, '\n' ∉ c.name.toList) ∧ (∀ v ∈ p.literals, v.OneLine) ∧
      ∀ s ∈ p.stems, '\n' ∉ s.toList := by
  have hstrings : (∀ s ∈ p.literals.filterMap Literal.string?, '\n' ∉ s.toList) ↔
      ∀ v ∈ p.literals, v.OneLine := by
    constructor
    · rintro h v hv s rfl
      exact h s (List.mem_filterMap.mpr ⟨_, hv, rfl⟩)
    · intro h s hs
      obtain ⟨v, hv, hvs⟩ := List.mem_filterMap.mp hs
      cases v with
      | string t =>
        cases hvs
        exact h _ hv s rfl
      | _ => contradiction
  rw [OneLine, texts, List.forall_mem_append, List.forall_mem_append, List.forall_mem_map, hstrings]

/-- There is no line feed in a constant. -/
theorem oneLine_const (b : Bool) : (const b).OneLine :=
  List.forall_mem_nil _

/-- What is legible keeps to one line. -/
theorem Legible.oneLine {p : Predicate} (h : p.Legible) : p.OneLine := by
  obtain ⟨hcolumns, hliterals, hstems⟩ := h
  refine oneLine_iff.mpr ⟨hcolumns, ?_, hstems⟩
  rintro v hv s rfl
  exact hliterals _ hv

/-- What keeps to one line is legible if it is scaled. -/
theorem OneLine.legible {p : Predicate} (h : p.OneLine) (hscaled : p.Scaled) : p.Legible := by
  obtain ⟨hcolumns, hliterals, hstems⟩ := oneLine_iff.mp h
  exact ⟨hcolumns, fun v hv => (hliterals v hv).legible (hscaled v hv), hstems⟩

/-! ## Chains -/

/-- A chain is scaled exactly if its operands are. -/
theorem scaled_chain {op : Connective} {ps : List Predicate} :
    (chain op ps).Scaled ↔ ∀ p ∈ ps, p.Scaled := by
  show (∀ v ∈ literalsAll ps, v.Scaled) ↔ _
  rw [literalsAll_eq_flatMap, List.forall_mem_flatMap]
  rfl

/-- Conditions on the parts of a chain are the same conditions on the parts of every operand. -/
theorem parts_chain {op : Connective} {ps : List Predicate} {C : Column → Prop}
    {L : Literal → Prop} {S : String → Prop} :
    ((∀ c ∈ (chain op ps).columns, C c) ∧ (∀ v ∈ (chain op ps).literals, L v) ∧
        ∀ s ∈ (chain op ps).stems, S s) ↔
      ∀ p ∈ ps, (∀ c ∈ p.columns, C c) ∧ (∀ v ∈ p.literals, L v) ∧ ∀ s ∈ p.stems, S s := by
  show (∀ c ∈ columnsAll ps, _) ∧ (∀ v ∈ literalsAll ps, _) ∧ (∀ s ∈ stemsAll ps, _) ↔ _
  rw [columnsAll_eq_flatMap, literalsAll_eq_flatMap, stemsAll_eq_flatMap, List.forall_mem_flatMap,
    List.forall_mem_flatMap, List.forall_mem_flatMap]
  constructor
  · rintro ⟨hcolumns, hliterals, hstems⟩ p hp
    exact ⟨hcolumns p hp, hliterals p hp, hstems p hp⟩
  · intro h
    refine ⟨?_, ?_, ?_⟩
    · intro p hp
      exact (h p hp).1
    · intro p hp
      exact (h p hp).2.1
    · intro p hp
      exact (h p hp).2.2

/-- A chain is legible exactly if its operands are. -/
theorem legible_chain {op : Connective} {ps : List Predicate} :
    (chain op ps).Legible ↔ ∀ p ∈ ps, p.Legible :=
  parts_chain

/-- There is no line feed in a chain exactly if there is none in its operands. -/
theorem oneLine_chain {op : Connective} {ps : List Predicate} :
    (chain op ps).OneLine ↔ ∀ p ∈ ps, p.OneLine := by
  simp only [oneLine_iff]
  exact parts_chain

end Predicate

end RowFilter
