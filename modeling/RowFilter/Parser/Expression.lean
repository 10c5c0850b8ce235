import RowFilter.Parser.Atom

/-!
# Reading expressions

`OR` binds least, then `AND`, then `NOT`; parentheses group. Operands joined by the same connective
become one chain, and an operand on its own stays as it is. If what follows a connective is no
operand, the chain ends before the connective. The number of negations and parentheses around any
place is bounded.
-/

set_option autoImplicit false

namespace RowFilter.Parser

/-- The operands after the first one: each has the connective before it. A fault in the tokens of an
operand ends the chain before its connective; any other fault ends the reading. -/
def readOperands (op : Connective) (p : Parser Predicate) (ks : List Kind) :
    Outcome (List Predicate) :=
  match ks with
  | .keyword (.connective c) :: more =>
    if c = op then
      let o := p.run more
      match o.result with
      | .ok q =>
        have := (p.rest_suffix more).length_le
        ((readOperands op p o.rest).map (q :: ·)).logAfter o.log
      | .error (.unexpected _) => ⟨.ok [], ks, o.log⟩
      | .error fault => ⟨.error fault, o.rest, o.log⟩
    else ⟨.ok [], ks, []⟩
  | _ => ⟨.ok [], ks, []⟩
termination_by ks.length

/-- Reading the operands of a chain only takes tokens off the front. -/
theorem readOperands_suffix (op : Connective) (p : Parser Predicate) (ks : List Kind) :
    (readOperands op p ks).rest <:+ ks := by
  fun_induction readOperands op p ks with
  | case1 more o q hq hlen ih =>
    exact (ih.trans (p.rest_suffix more)).trans (List.suffix_cons _ _)
  | case2 => exact List.suffix_refl _
  | case3 more o fault _ hfault => exact (p.rest_suffix more).trans (List.suffix_cons _ _)
  | case4 => exact List.suffix_refl _
  | case5 => exact List.suffix_refl _

/-- Reads the operands after the first one. -/
def operands (op : Connective) (p : Parser Predicate) : Parser (List Predicate) where
  run := readOperands op p
  rest_suffix := readOperands_suffix op p

/-- The predicate of the operands that were read: a chain only if there is more than one. -/
def combine (op : Connective) (first : Predicate) : List Predicate → Predicate
  | [] => first
  | more => .chain op (first :: more)

/-- Reads operands with the connective between them. -/
def chain (op : Connective) (p : Parser Predicate) : Parser Predicate := do
  let first ← p
  let more ← operands op p
  return combine op first more

/-- Reads an expression whose operands are read by `p`: `AND` binds tighter than `OR`. -/
def connected (p : Parser Predicate) : Parser Predicate :=
  chain .or (chain .and p)

/-- Reads an operand of a connective with so many levels of nesting left: negations, groups in
parentheses, and leaves. -/
def operand : Nat → Parser Predicate
  | 0 =>
    peek fun
      | .keyword .not :: _ => do
        advance
        fail .tooDeep
      | .leftParen :: _ => do
        advance
        fail .tooDeep
      | _ => atom
  | levels + 1 =>
    peek fun
      | .keyword .not :: _ => do
        advance
        let p ← operand levels
        return .not p
      | .leftParen :: _ => do
        advance
        let p ← connected (operand levels)
        expect .rightParen .rightParen
        return p
      | _ => atom

/-- Reads an expression in which at most so many negations and parentheses surround any place. -/
def expression (levels : Nat) : Parser Predicate :=
  connected (operand levels)

end RowFilter.Parser
