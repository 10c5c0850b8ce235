import RowFilter.Parser.Basic

/-!
# Successful readings

A parser reads a value from some token kinds and leaves the others. The lemmas below take such a
reading apart, one for each way in which parsers are made, so that no proof about a parser has to
open the outcomes of its parts.
-/

set_option autoImplicit false

namespace RowFilter.Parser

/-- The parser reads the value from the front of the kinds and leaves the rest. -/
def Reads {α : Type} (p : Parser α) (ks : List Kind) (a : α) (rest : List Kind) : Prop :=
  (p.run ks).result = .ok a ∧ (p.run ks).rest = rest

/-- Parsers in sequence read one after the other. -/
@[simp]
theorem reads_bind {α β : Type} (p : Parser α) (f : α → Parser β) (ks : List Kind) (b : β)
    (rest : List Kind) :
    Reads (p >>= f) ks b rest ↔ ∃ a mid, Reads p ks a mid ∧ Reads (f a) mid b rest := by
  unfold Reads
  rw [run_bind]
  obtain ⟨result, mid, log⟩ := p.run ks
  cases result with
  | ok a =>
    constructor
    · intro h
      exact ⟨a, mid, ⟨rfl, rfl⟩, h⟩
    · rintro ⟨a', mid', ⟨ha, rfl⟩, h⟩
      cases ha
      exact h
  | error fault => simp

/-- Returning a value reads nothing. -/
@[simp]
theorem reads_pure {α : Type} (a b : α) (ks rest : List Kind) :
    Reads (pure a) ks b rest ↔ a = b ∧ ks = rest := by
  simp [Reads]

/-- A failing parser reads nothing at all. -/
@[simp]
theorem not_reads_fail {α : Type} (fault : Fault) (ks : List Kind) (a : α) (rest : List Kind) :
    ¬ Reads (fail fault) ks a rest := by
  simp [Reads]

/-- A parser that looks at the tokens reads as the chosen parser does. -/
@[simp]
theorem reads_peek {α : Type} (f : List Kind → Parser α) (ks : List Kind) (a : α)
    (rest : List Kind) : Reads (peek f) ks a rest ↔ Reads (f ks) ks a rest :=
  Iff.rfl

/-- Passing a token reads it, and at the end nothing. -/
@[simp]
theorem reads_advance (ks : List Kind) (u : Unit) (rest : List Kind) :
    Reads advance ks u rest ↔ ks.tail = rest := by
  simp [Reads]

/-- After passing a token a parser reads from the tokens behind. -/
theorem reads_advance_bind {α : Type} (f : Unit → Parser α) (k : Kind) (ks : List Kind) (a : α)
    (rest : List Kind) : Reads (advance >>= f) (k :: ks) a rest ↔ Reads (f ()) ks a rest := by
  rw [reads_bind]
  constructor
  · rintro ⟨_, mid, hskip, h⟩
    rw [reads_advance, List.tail_cons] at hskip
    rw [hskip]
    exact h
  · intro h
    exact ⟨(), ks, (reads_advance _ _ _).mpr rfl, h⟩

/-- Logging a pattern reads nothing. -/
@[simp]
theorem reads_record (entry : LoweredPattern) (ks : List Kind) (u : Unit) (rest : List Kind) :
    Reads (record entry) ks u rest ↔ ks = rest := by
  simp [Reads]

/-- Taking a token reads one of the kind that is asked for. -/
@[simp]
theorem reads_take {α : Type} (select : Kind → Option α) (expected : Expected) (ks : List Kind)
    (a : α) (rest : List Kind) :
    Reads (take select expected) ks a rest ↔ ∃ k, ks = k :: rest ∧ select k = some a := by
  unfold Reads
  cases ks with
  | nil => simp
  | cons k ks =>
    cases h : select k with
    | none =>
      rw [run_take_of_none h]
      constructor
      · rintro ⟨hresult, -⟩
        contradiction
      · rintro ⟨k', hk, hselect⟩
        cases hk
        rw [h] at hselect
        contradiction
    | some b =>
      rw [run_take_of_some h]
      constructor
      · rintro ⟨hresult, rfl⟩
        cases hresult
        exact ⟨k, rfl, h⟩
      · rintro ⟨k', hk, hselect⟩
        cases hk
        rw [h] at hselect
        cases hselect
        exact ⟨rfl, rfl⟩

/-- Expecting a token reads just this token. -/
@[simp]
theorem reads_expect (kind : Kind) (expected : Expected) (ks : List Kind) (u : Unit)
    (rest : List Kind) : Reads (expect kind expected) ks u rest ↔ ks = kind :: rest := by
  simp [expect]

/-- Giving an answer reads nothing, and the answer has to be a value. -/
@[simp]
theorem reads_ofExcept {ε α : Type} (fault : ε → Fault) (answer : Except ε α) (ks : List Kind)
    (a : α) (rest : List Kind) :
    Reads (ofExcept fault answer) ks a rest ↔ answer = .ok a ∧ ks = rest := by
  cases answer <;> simp [ofExcept, Reads, succeed, fail]

end RowFilter.Parser
