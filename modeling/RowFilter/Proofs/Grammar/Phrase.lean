import RowFilter.Proofs.Grammar.Leaf

/-!
# The phrases of the grammar

`Or := And (OR And)*`, `And := Not (AND Not)*`, `Not := NOT Not | '(' Or ')' | Leaf`: the parse
trees of these productions, with the tokens that they derive, the depth of nesting, the leaves from
left to right and the meaning. A chain of one operand adds nothing to the operand; a longer one is
one predicate with all the operands.

`read` is what a bounded reader has to answer on a tree: the first fault from left to right, where a
place that is too deep counts as one. Its lemmas say how that answer is composed of depth and
meaning.
-/

set_option autoImplicit false

namespace RowFilter

/-- A sequence has a value exactly if both of its steps have one. -/
theorem bind_eq_ok {ε α β : Type} {x : Except ε α} {f : α → Except ε β} {b : β} :
    x >>= f = .ok b ↔ ∃ a, x = .ok a ∧ f a = .ok b := by
  cases x with
  | ok a =>
    constructor
    · intro h
      exact ⟨a, rfl, h⟩
    · rintro ⟨a', ha, h⟩
      cases ha
      exact h
  | error e =>
    constructor
    · intro h
      contradiction
    · rintro ⟨a, ha, -⟩
      contradiction

namespace Grammar

/-- The symbols of the grammar: `Not` is the symbol of operands, `And` and `Or` are chains. -/
inductive Symbol where
  | operand
  | chain (op : Connective)

/-- The symbol of the operands of a chain. -/
def Symbol.below : Connective → Symbol
  | .or => .chain .and
  | .and => .operand

mutual

/-- The parse trees of a symbol. -/
inductive Phrase : Symbol → Type
  | leaf (l : Leaf) : Phrase .operand
  | not (t : Phrase .operand) : Phrase .operand
  | group (t : Phrase (.chain .or)) : Phrase .operand
  | chain {op : Connective} (first : Phrase (.below op)) (more : Rest op) : Phrase (.chain op)

/-- The parse trees of the repetition in a chain: each operand has the connective before it. -/
inductive Rest : Connective → Type
  | done {op : Connective} : Rest op
  | next {op : Connective} (t : Phrase (.below op)) (more : Rest op) : Rest op

end

/-- A chain only if there is more than one operand. -/
def joined (op : Connective) (p : Predicate) : List Predicate → Predicate
  | [] => p
  | q :: qs => .chain op (p :: q :: qs)

mutual

/-- The token kinds that a tree derives. -/
def Phrase.kinds {s : Symbol} : Phrase s → List Kind
  | .leaf l => l.kinds
  | .not t => .keyword .not :: t.kinds
  | .group t => .leftParen :: (t.kinds ++ [.rightParen])
  | .chain first more => first.kinds ++ more.kinds

/-- The token kinds that a repetition derives. -/
def Rest.kinds {op : Connective} : Rest op → List Kind
  | .done => []
  | .next t more => .keyword (.connective op) :: (t.kinds ++ more.kinds)

end

mutual

/-- How many negations and parentheses at most surround a place. -/
def Phrase.depth {s : Symbol} : Phrase s → Nat
  | .leaf _ => 0
  | .not t => t.depth + 1
  | .group t => t.depth + 1
  | .chain first more => max first.depth more.depth

/-- The same for the operands of a repetition. -/
def Rest.depth {op : Connective} : Rest op → Nat
  | .done => 0
  | .next t more => max t.depth more.depth

end

mutual

/-- The leaves from left to right. -/
def Phrase.leaves {s : Symbol} : Phrase s → List Leaf
  | .leaf l => [l]
  | .not t => t.leaves
  | .group t => t.leaves
  | .chain first more => first.leaves ++ more.leaves

/-- The leaves of a repetition from left to right. -/
def Rest.leaves {op : Connective} : Rest op → List Leaf
  | .done => []
  | .next t more => t.leaves ++ more.leaves

end

mutual

/-- The predicate that a tree stands for, or the violation of its leftmost leaf that has one. -/
def Phrase.meaning {s : Symbol} : Phrase s → Except Violation Predicate
  | .leaf l => l.meaning
  | .not t => do
    let p ← t.meaning
    return .not p
  | .group t => t.meaning
  | @Phrase.chain op first more => do
    let p ← first.meaning
    let ps ← more.meaning
    return joined op p ps

/-- The operands that a repetition stands for. -/
def Rest.meaning {op : Connective} : Rest op → Except Violation (List Predicate)
  | .done => .ok []
  | .next t more => do
    let p ← t.meaning
    let ps ← more.meaning
    return p :: ps

end

mutual

/-- What a tree is read as with so many levels of nesting left. -/
def Phrase.read {s : Symbol} (levels : Nat) : Phrase s → Except Fault Predicate
  | .leaf l => l.read
  | .not t =>
    match levels with
    | 0 => .error .tooDeep
    | levels + 1 => do
      let p ← t.read levels
      return .not p
  | .group t =>
    match levels with
    | 0 => .error .tooDeep
    | levels + 1 => t.read levels
  | @Phrase.chain op first more => do
    let p ← first.read levels
    let ps ← more.read levels
    return joined op p ps

/-- What a repetition is read as with so many levels of nesting left. -/
def Rest.read {op : Connective} (levels : Nat) : Rest op → Except Fault (List Predicate)
  | .done => .ok []
  | .next t more => do
    let p ← t.read levels
    let ps ← more.read levels
    return p :: ps

end

/-! ## Tokens and leaves -/

/-- A tree has at least one token. -/
theorem Phrase.kinds_ne_nil {s : Symbol} : (t : Phrase s) → t.kinds ≠ []
  | .leaf l => l.kinds_ne_nil
  | .not t => List.cons_ne_nil _ _
  | .group t => List.cons_ne_nil _ _
  | .chain first more => List.append_ne_nil_of_left_ne_nil first.kinds_ne_nil _

/-- A tree has at least one leaf. -/
theorem Phrase.leaves_ne_nil {s : Symbol} : (t : Phrase s) → t.leaves ≠ []
  | .leaf l => List.cons_ne_nil _ _
  | .not t => t.leaves_ne_nil
  | .group t => t.leaves_ne_nil
  | .chain first more => List.append_ne_nil_of_left_ne_nil first.leaves_ne_nil _

/-- A repetition without leaves has no operands. -/
theorem Rest.eq_done_of_leaves_eq_nil {op : Connective} {t : Rest op} (h : t.leaves = []) :
    t = .done := by
  cases t with
  | done => rfl
  | next t more => exact absurd (List.append_eq_nil_iff.mp h).1 t.leaves_ne_nil

mutual

/-- The tokens of a tree are valid. -/
theorem Phrase.error?_of_mem_kinds {s : Symbol} :
    (t : Phrase s) → ∀ k ∈ t.kinds, k.error? = none
  | .leaf l => l.error?_of_mem_kinds
  | .not t => List.forall_mem_cons.mpr ⟨rfl, t.error?_of_mem_kinds⟩
  | .group t => by
    refine List.forall_mem_cons.mpr ⟨rfl, List.forall_mem_append.mpr ⟨t.error?_of_mem_kinds, ?_⟩⟩
    exact List.forall_mem_singleton.mpr rfl
  | .chain first more =>
    List.forall_mem_append.mpr ⟨first.error?_of_mem_kinds, more.error?_of_mem_kinds⟩

/-- The tokens of a repetition are valid. -/
theorem Rest.error?_of_mem_kinds {op : Connective} :
    (t : Rest op) → ∀ k ∈ t.kinds, k.error? = none
  | .done => by simp [Rest.kinds]
  | .next t more => by
    refine List.forall_mem_cons.mpr ⟨rfl, ?_⟩
    exact List.forall_mem_append.mpr ⟨t.error?_of_mem_kinds, more.error?_of_mem_kinds⟩

end

mutual

/-- The tokens of a leaf are tokens of the tree. -/
theorem Phrase.mem_kinds_of_leaf {s : Symbol} {k : Kind} {l : Leaf} (hk : k ∈ l.kinds) :
    {t : Phrase s} → l ∈ t.leaves → k ∈ t.kinds
  | .leaf l, hl => by
    cases List.mem_singleton.mp hl
    exact hk
  | .not t, hl => List.mem_cons_of_mem _ (t.mem_kinds_of_leaf hk hl)
  | .group t, hl =>
    List.mem_cons_of_mem _ (List.mem_append_left _ (t.mem_kinds_of_leaf hk hl))
  | .chain first more, hl => by
    rcases List.mem_append.mp hl with hfirst | hmore
    · exact List.mem_append_left _ (first.mem_kinds_of_leaf hk hfirst)
    · exact List.mem_append_right _ (more.mem_kinds_of_leaf hk hmore)

/-- The tokens of a leaf are tokens of the repetition. -/
theorem Rest.mem_kinds_of_leaf {op : Connective} {k : Kind} {l : Leaf} (hk : k ∈ l.kinds) :
    {t : Rest op} → l ∈ t.leaves → k ∈ t.kinds
  | .done, hl => by contradiction
  | .next t more, hl => by
    apply List.mem_cons_of_mem
    rcases List.mem_append.mp hl with hfirst | hmore
    · exact List.mem_append_left _ (t.mem_kinds_of_leaf hk hfirst)
    · exact List.mem_append_right _ (more.mem_kinds_of_leaf hk hmore)

end

/-! ## Meaning -/

/-- The property is kept when predicates are negated or joined. -/
structure Kept (P : Predicate → Prop) : Prop where
  not : ∀ p, P p → P p.not
  joined : ∀ op p ps, P p → (∀ q ∈ ps, P q) → P (joined op p ps)

/-- What chains of two operands or more take over from their operands is kept when operands are
joined: an operand on its own is no chain. -/
theorem Kept.of_chain {P : Predicate → Prop} (hnot : ∀ p, P p → P p.not)
    (hchain : ∀ op ps, 2 ≤ ps.length → (∀ p ∈ ps, P p) → P (.chain op ps)) : Kept P where
  not := hnot
  joined op p ps hp hps := by
    cases ps with
    | nil => exact hp
    | cons q qs =>
      exact hchain op (p :: q :: qs) (Nat.le_add_left 2 _) (List.forall_mem_cons.mpr ⟨hp, hps⟩)

mutual

/-- What holds of the predicates of the leaves, and is kept by negations and chains, holds of the
predicate of the tree. -/
theorem Phrase.invariant {P : Predicate → Prop} (hP : Kept P) {s : Symbol} :
    {t : Phrase s} → {p : Predicate} → (∀ l ∈ t.leaves, ∀ q, l.meaning = .ok q → P q) →
      t.meaning = .ok p → P p
  | .leaf l, p, hleaf, h => hleaf l (List.mem_singleton_self l) p h
  | .not t, _, hleaf, h => by
    obtain ⟨q, hq, hp⟩ := bind_eq_ok.mp h
    cases hp
    exact hP.not q (t.invariant hP hleaf hq)
  | .group t, _, hleaf, h => t.invariant hP hleaf h
  | .chain first more, _, hleaf, h => by
    obtain ⟨q, hq, hrest⟩ := bind_eq_ok.mp h
    obtain ⟨qs, hqs, hp⟩ := bind_eq_ok.mp hrest
    cases hp
    obtain ⟨hfirst, hmore⟩ := List.forall_mem_append.mp hleaf
    exact hP.joined _ q qs (first.invariant hP hfirst hq) (more.invariant hP hmore hqs)

/-- The same for the operands of a repetition. -/
theorem Rest.invariant {P : Predicate → Prop} (hP : Kept P) {op : Connective} :
    {t : Rest op} → {ps : List Predicate} → (∀ l ∈ t.leaves, ∀ q, l.meaning = .ok q → P q) →
      t.meaning = .ok ps → ∀ p ∈ ps, P p
  | .done, _, _, h => by
    cases h
    simp
  | .next t more, _, hleaf, h => by
    obtain ⟨q, hq, hrest⟩ := bind_eq_ok.mp h
    obtain ⟨qs, hqs, hp⟩ := bind_eq_ok.mp hrest
    cases hp
    obtain ⟨hfirst, hmore⟩ := List.forall_mem_append.mp hleaf
    exact List.forall_mem_cons.mpr ⟨t.invariant hP hfirst hq, more.invariant hP hmore hqs⟩

end

/-- The error of an answer that is no value. -/
def failure? {ε α : Type} : Except ε α → Option ε
  | .ok _ => none
  | .error e => some e

/-- The violation of a leaf, if it has one. -/
def Leaf.violation? (l : Leaf) : Option Violation :=
  failure? l.meaning

/-- An answer without an error is a value. -/
theorem failure?_eq_none {ε α : Type} {x : Except ε α} : failure? x = none ↔ ∃ a, x = .ok a := by
  cases x <;> simp [failure?]

/-- The error of an answer is the error it consists of. -/
theorem failure?_eq_some {ε α : Type} {x : Except ε α} {e : ε} :
    failure? x = some e ↔ x = .error e := by
  cases x <;> simp [failure?]

/-- What is done with a value at the end adds no error. -/
theorem failure?_bind_pure {ε α β : Type} (x : Except ε α) (g : α → β) :
    failure? (x >>= fun a => pure (g a)) = failure? x := by
  cases x <;> rfl

/-- Of two steps the first one that fails decides. -/
theorem failure?_bind_bind {ε α β γ : Type} (x : Except ε α) (y : Except ε β) (g : α → β → γ) :
    failure? (x >>= fun a => y >>= fun b => pure (g a b)) = (failure? x).or (failure? y) := by
  cases x with
  | error e => rfl
  | ok a => cases y <;> rfl

mutual

/-- A tree has the violation of its leftmost leaf that has one. -/
theorem Phrase.failure?_meaning {s : Symbol} :
    (t : Phrase s) → failure? t.meaning = t.leaves.findSome? Leaf.violation?
  | .leaf l => by
    simp [Phrase.meaning, Phrase.leaves, Leaf.violation?]
  | .not t => by
    rw [Phrase.meaning, failure?_bind_pure, t.failure?_meaning, Phrase.leaves]
  | .group t => by
    rw [Phrase.meaning, t.failure?_meaning, Phrase.leaves]
  | .chain first more => by
    rw [Phrase.meaning, failure?_bind_bind, first.failure?_meaning, more.failure?_meaning,
      Phrase.leaves, List.findSome?_append]

/-- The same for the operands of a repetition. -/
theorem Rest.failure?_meaning {op : Connective} :
    (t : Rest op) → failure? t.meaning = t.leaves.findSome? Leaf.violation?
  | .done => rfl
  | .next t more => by
    rw [Rest.meaning, failure?_bind_bind, t.failure?_meaning, more.failure?_meaning,
      Rest.leaves, List.findSome?_append]

end

/-- A tree stands for a predicate exactly if every leaf does. -/
theorem Phrase.exists_meaning_iff {s : Symbol} (t : Phrase s) :
    (∃ p, t.meaning = .ok p) ↔ ∀ l ∈ t.leaves, ∃ p, l.meaning = .ok p := by
  rw [← failure?_eq_none, t.failure?_meaning, List.findSome?_eq_none_iff]
  simp only [Leaf.violation?, failure?_eq_none]

/-- The leftmost leaf with a violation gives the tree its violation. -/
theorem Phrase.meaning_of_leftmost {s : Symbol} {t : Phrase s} {left right : List Leaf} {l : Leaf}
    {v : Violation} (hleaves : t.leaves = left ++ l :: right)
    (hleft : ∀ m ∈ left, ∃ p, m.meaning = .ok p) (hl : l.meaning = .error v) :
    t.meaning = .error v := by
  have hnone : left.findSome? Leaf.violation? = none := by
    rw [List.findSome?_eq_none_iff]
    intro m hm
    exact failure?_eq_none.mpr (hleft m hm)
  rw [← failure?_eq_some, t.failure?_meaning, hleaves, List.findSome?_append, hnone,
    Option.none_or, List.findSome?_cons_of_isSome]
  all_goals simp [Leaf.violation?, hl, failure?]

/-! ## Depth -/

/-- Renaming errors leaves the values as they are. -/
theorem mapError_eq_ok {ε ε' α : Type} {f : ε → ε'} {x : Except ε α} {a : α} :
    x.mapError f = .ok a ↔ x = .ok a := by
  cases x <;> simp [Except.mapError]

/-- Errors may be renamed step by step. -/
theorem mapError_bind {ε ε' α β : Type} (g : ε → ε') (x : Except ε α) (f : α → Except ε β) :
    (x >>= f).mapError g = x.mapError g >>= fun a => (f a).mapError g := by
  cases x <;> rfl

mutual

/-- Where nothing is too deep, a tree is read as what it stands for. -/
theorem Phrase.read_of_depth_le {s : Symbol} {levels : Nat} :
    {t : Phrase s} → t.depth ≤ levels → t.read levels = t.meaning.mapError Violation.fault
  | .leaf l, _ => rfl
  | .not t, h => by
    cases levels with
    | zero => exact absurd h (Nat.not_succ_le_zero _)
    | succ n =>
      rw [Phrase.read, Phrase.meaning, mapError_bind,
        t.read_of_depth_le (Nat.le_of_succ_le_succ h)]
      rfl
  | .group t, h => by
    cases levels with
    | zero => exact absurd h (Nat.not_succ_le_zero _)
    | succ n => rw [Phrase.read, Phrase.meaning, t.read_of_depth_le (Nat.le_of_succ_le_succ h)]
  | .chain first more, h => by
    rw [Phrase.depth, Nat.max_le] at h
    simp only [Phrase.read, Phrase.meaning, mapError_bind]
    rw [first.read_of_depth_le h.1, more.read_of_depth_le h.2]
    rfl

/-- The same for the operands of a repetition. -/
theorem Rest.read_of_depth_le {op : Connective} {levels : Nat} :
    {t : Rest op} → t.depth ≤ levels → t.read levels = t.meaning.mapError Violation.fault
  | .done, _ => rfl
  | .next t more, h => by
    rw [Rest.depth, Nat.max_le] at h
    simp only [Rest.read, Rest.meaning, mapError_bind]
    rw [t.read_of_depth_le h.1, more.read_of_depth_le h.2]
    rfl

end

mutual

/-- A tree that is read is nested no more deeply than allowed. -/
theorem Phrase.depth_le_of_read {s : Symbol} {levels : Nat} {p : Predicate} :
    {t : Phrase s} → t.read levels = .ok p → t.depth ≤ levels
  | .leaf l, _ => Nat.zero_le _
  | .not t, h => by
    cases levels with
    | zero => contradiction
    | succ n =>
      obtain ⟨q, hq, -⟩ := bind_eq_ok.mp h
      exact Nat.succ_le_succ (t.depth_le_of_read hq)
  | .group t, h => by
    cases levels with
    | zero => contradiction
    | succ n => exact Nat.succ_le_succ (t.depth_le_of_read h)
  | .chain first more, h => by
    obtain ⟨p, hp, hrest⟩ := bind_eq_ok.mp h
    obtain ⟨ps, hps, -⟩ := bind_eq_ok.mp hrest
    exact Nat.max_le.mpr ⟨first.depth_le_of_read hp, more.depth_le_of_read hps⟩

/-- The same for the operands of a repetition. -/
theorem Rest.depth_le_of_read {op : Connective} {levels : Nat} {ps : List Predicate} :
    {t : Rest op} → t.read levels = .ok ps → t.depth ≤ levels
  | .done, _ => Nat.zero_le _
  | .next t more, h => by
    obtain ⟨p, hp, hrest⟩ := bind_eq_ok.mp h
    obtain ⟨ps, hps, -⟩ := bind_eq_ok.mp hrest
    exact Nat.max_le.mpr ⟨t.depth_le_of_read hp, more.depth_le_of_read hps⟩

end

/-- A tree is read as a predicate exactly if it is not too deep and stands for that predicate. -/
theorem Phrase.read_eq_ok_iff {s : Symbol} {t : Phrase s} {levels : Nat} {p : Predicate} :
    t.read levels = .ok p ↔ t.depth ≤ levels ∧ t.meaning = .ok p := by
  constructor
  · intro h
    have hdepth := Phrase.depth_le_of_read h
    rw [Phrase.read_of_depth_le hdepth, mapError_eq_ok] at h
    exact ⟨hdepth, h⟩
  · rintro ⟨hdepth, h⟩
    rw [Phrase.read_of_depth_le hdepth, h]
    rfl

/-- A tree is read exactly if it is not too deep and its leaves are sound. -/
theorem Phrase.exists_read_iff {s : Symbol} {t : Phrase s} {levels : Nat} :
    (∃ p, t.read levels = .ok p) ↔ t.depth ≤ levels ∧ ∀ l ∈ t.leaves, l.Sound := by
  simp only [read_eq_ok_iff, exists_and_left, t.exists_meaning_iff, Leaf.sound_iff]

mutual

/-- Whatever keeps a tree from being read, it is no matter of its tokens. -/
theorem Phrase.failure?_read_ne {s : Symbol} {levels : Nat} {expected : Expected} :
    (t : Phrase s) → failure? (t.read levels) ≠ some (.unexpected expected)
  | .leaf l => by
    rw [Phrase.read, Leaf.read]
    cases l.meaning with
    | ok p => simp [failure?, Except.mapError]
    | error v => simpa [failure?, Except.mapError] using v.fault_ne_unexpected expected
  | .not t => by
    cases levels with
    | zero => simp [Phrase.read, failure?]
    | succ n =>
      rw [Phrase.read, failure?_bind_pure]
      exact t.failure?_read_ne
  | .group t => by
    cases levels with
    | zero => simp [Phrase.read, failure?]
    | succ n => exact t.failure?_read_ne
  | .chain first more => by
    rw [Phrase.read, failure?_bind_bind, Ne, Option.or_eq_some_iff]
    rintro (h | ⟨-, h⟩)
    · exact first.failure?_read_ne h
    · exact more.failure?_read_ne h

/-- The same for the operands of a repetition. -/
theorem Rest.failure?_read_ne {op : Connective} {levels : Nat} {expected : Expected} :
    (t : Rest op) → failure? (t.read levels) ≠ some (.unexpected expected)
  | .done => by simp [Rest.read, failure?]
  | .next t more => by
    rw [Rest.read, failure?_bind_bind, Ne, Option.or_eq_some_iff]
    rintro (h | ⟨-, h⟩)
    · exact t.failure?_read_ne h
    · exact more.failure?_read_ne h

end

end Grammar

end RowFilter
