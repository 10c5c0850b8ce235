import RowFilter.Proofs.Json.RoundTrip

/-!
# Decoding what was never checked

A predicate that was put together without the checked constructors can have chains of any length,
and any lists of literals where sets should be. Its encoding can be decoded exactly if the predicate
can be built anew by the checked constructors, from the leaves up and from left to right. Then the
two results are the same predicate, and otherwise decoding reports the fault that the constructors
meet first.
-/

set_option autoImplicit false

namespace RowFilter

variable {reader : Json.Reader}

/-! ## Sets -/

namespace LiteralSet

/-- Literals from JSON are inserted at the same places. -/
theorem insert_reread (v : Literal) (ws : List Literal) :
    insert v.reread (ws.map Literal.reread) = (insert v ws).map Literal.reread := by
  induction ws with
  | nil => rfl
  | cons w ws ih =>
    rw [List.map_cons, insert, insert, Literal.compare_reread_reread]
    cases Ord.compare v w with
    | lt => rfl
    | eq => rfl
    | gt => exact congrArg (w.reread :: ·) ih

/-- Literals from JSON are sorted alike. -/
theorem sort_reread (vs : List Literal) :
    sort (vs.map Literal.reread) = (sort vs).map Literal.reread := by
  rw [sort, List.foldl_map]
  refine @List.foldl_hom _ _ _ (List.map Literal.reread) (fun ws v => insert v ws)
    (fun ws v => insert v.reread ws) vs [] ?_
  intro ws v
  exact insert_reread v ws

/-- Literals from JSON have the same types, and mixed types are found in the same place. -/
theorem commonType_reread (vs : List Literal) :
    commonType (vs.map Literal.reread) = commonType vs := by
  cases vs with
  | nil => rfl
  | cons v vs =>
    have htype : (fun w : Literal => !v.type.isCompatibleWith w.type) ∘ Literal.reread =
        fun w => !v.type.isCompatibleWith w.type := by
      funext w
      rw [Function.comp_apply, w.type_reread]
    rw [List.map_cons, commonType, commonType, v.type_reread, List.find?_map, htype]
    cases vs.find? fun w => !v.type.isCompatibleWith w.type with
    | none => rfl
    | some w =>
      show Except.error (TypeError.mixedTypes v.type w.reread.type) = _
      rw [w.type_reread]

/-- Whether literals make up a set does not depend on the scales of decimals. -/
theorem ofList_reread (vs : List Literal) :
    ofList (vs.map Literal.reread) = (ofList vs).map reread := by
  rw [ofList, ofList, sort_reread, commonType_reread]
  cases commonType (sort vs) with
  | error e => rfl
  | ok type? => cases type? <;> rfl

end LiteralSet

namespace Literal

/-- The encodings of literals are decoded one by one. -/
theorem ofJsonAll_toJson {vs : List Literal} (h : ∀ v ∈ vs, v.Encodable) :
    ofJsonAll reader (vs.map toJson) = .ok (vs.map reread) := by
  rw [ofJsonAll_eq_mapM]
  exact (mapM_map_eq_ok_iff fun v _ _ => ofJson_toJson_eq_ok_iff).mpr ⟨rfl, h⟩

end Literal

namespace Predicate

open Grammar

/-! ## Rebuilding -/

mutual

/-- Builds the predicate anew by the checked constructors, the operands of a chain before the
chain. -/
def rebuild : Predicate → Except TypeError Predicate
  | member op column values => ofMembers op column values.members
  | not operand => (rebuild operand).map not
  | chain op operands => do
    let ps ← rebuildAll operands
    ofOperands op ps
  | p => .ok p

/-- Builds the predicates anew from left to right. -/
def rebuildAll : List Predicate → Except TypeError (List Predicate)
  | [] => .ok []
  | p :: ps => do
    let q ← rebuild p
    let qs ← rebuildAll ps
    return q :: qs

end

mutual

/-- All that is wrong in a predicate: what is wrong in the operands of a chain comes before what is
wrong with their number. -/
def faults : Predicate → List TypeError
  | member _ _ values =>
    match LiteralSet.ofList values.members with
    | .error e => [e]
    | .ok _ => []
  | not operand => faults operand
  | chain op operands =>
    faultsAll operands ++
      if operands.length < 2 then [.tooFewOperands op operands.length] else []
  | _ => []

/-- All that is wrong in the predicates, from left to right. -/
def faultsAll : List Predicate → List TypeError
  | [] => []
  | p :: ps => faults p ++ faultsAll ps

end

/-- Building operands anew keeps their number. -/
theorem length_of_rebuildAll {ps qs : List Predicate} (h : rebuildAll ps = .ok qs) :
    qs.length = ps.length := by
  induction ps generalizing qs with
  | nil =>
    cases h
    rfl
  | cons p ps ih =>
    obtain ⟨q, -, h⟩ := bind_eq_ok.mp h
    obtain ⟨qs', hqs, h⟩ := bind_eq_ok.mp h
    cases h
    rw [List.length_cons, List.length_cons, ih hqs]

/-- Operands that are built anew are well formed if each of them is. -/
theorem wellFormed_of_rebuildAll {ps qs : List Predicate}
    (h : ∀ p ∈ ps, ∀ q, p.rebuild = .ok q → q.WellFormed) (hqs : rebuildAll ps = .ok qs) :
    ∀ q ∈ qs, q.WellFormed := by
  induction ps generalizing qs with
  | nil =>
    cases hqs
    exact List.forall_mem_nil _
  | cons p ps ih =>
    obtain ⟨hp, hps⟩ := List.forall_mem_cons.mp h
    obtain ⟨q, hq, hqs⟩ := bind_eq_ok.mp hqs
    obtain ⟨qs', hqs', hcons⟩ := bind_eq_ok.mp hqs
    cases hcons
    exact List.forall_mem_cons.mpr ⟨hp q hq, ih hps hqs'⟩

/-- What is built anew is well formed. -/
theorem wellFormed_of_rebuild {p q : Predicate} (h : p.rebuild = .ok q) : q.WellFormed := by
  induction p generalizing q with
  | member op c s => exact wellFormed_of_ofMembers h
  | not p ih =>
    obtain ⟨r, hr, rfl⟩ := map_eq_ok.mp h
    exact wellFormed_not.mpr (ih hr)
  | chain op ps ih =>
    obtain ⟨qs, hqs, h⟩ := bind_eq_ok.mp h
    exact wellFormed_of_ofOperands (wellFormed_of_rebuildAll (fun p hp q => ih p hp) hqs) h
  | _ =>
    cases h
    exact trivial

/-- Operands are built anew as themselves if each of them is. -/
theorem rebuildAll_eq_self {ps : List Predicate} (h : ∀ p ∈ ps, p.rebuild = .ok p) :
    rebuildAll ps = .ok ps := by
  induction ps with
  | nil => rfl
  | cons p ps ih =>
    obtain ⟨hp, hps⟩ := List.forall_mem_cons.mp h
    rw [rebuildAll, hp, ih hps]
    rfl

/-- The predicates that are built anew as themselves are the well-formed ones. -/
theorem rebuild_eq_self_iff {p : Predicate} : p.rebuild = .ok p ↔ p.WellFormed := by
  refine ⟨wellFormed_of_rebuild, ?_⟩
  intro hp
  induction p with
  | member op c s =>
    rw [rebuild, ofMembers, LiteralSet.ofList_members hp]
    rfl
  | not p ih =>
    rw [rebuild, ih hp]
    rfl
  | chain op ps ih =>
    obtain ⟨hlength, hps⟩ := wellFormed_chain.mp hp
    rw [rebuild, rebuildAll_eq_self fun p hp => ih p hp (hps p hp)]
    exact ofOperands_eq_ok_iff.mpr ⟨hlength, rfl⟩
  | _ => rfl

/-! ## The first fault -/

/-- Building operands anew ends with the first of their faults, from left to right. -/
theorem failure?_rebuildAll {ps : List Predicate}
    (h : ∀ p ∈ ps, failure? p.rebuild = p.faults.head?) :
    failure? (rebuildAll ps) = (faultsAll ps).head? := by
  induction ps with
  | nil => rfl
  | cons p ps ih =>
    obtain ⟨hp, hps⟩ := List.forall_mem_cons.mp h
    rw [rebuildAll, failure?_bind_bind, hp, ih hps, faultsAll, List.head?_append]

/-- Building a predicate anew ends with the first of its faults. -/
theorem failure?_rebuild (p : Predicate) : failure? p.rebuild = p.faults.head? := by
  induction p with
  | const b => rfl
  | test op c => rfl
  | compare op c v => rfl
  | member op c s =>
    rw [rebuild, faults, ofMembers]
    cases LiteralSet.ofList s.members <;> rfl
  | starts op c stem => rfl
  | not p ih =>
    rw [faults, ← ih, rebuild]
    cases p.rebuild <;> rfl
  | chain op ps ih =>
    rw [faults, List.head?_append, ← failure?_rebuildAll ih, rebuild]
    cases hps : rebuildAll ps with
    | error e => rfl
    | ok qs =>
      show failure? (ofOperands op qs) = _
      rw [ofOperands, length_of_rebuildAll hps]
      split <;> rfl

/-! ## Decoding -/

/-- A membership test is made of literals from JSON as it is made of the literals themselves. -/
theorem ofMembers_reread (op : Membership) (c : Column) (vs : List Literal) :
    ofMembers op c (vs.map Literal.reread) = (ofMembers op c vs).map reread := by
  rw [ofMembers, ofMembers, LiteralSet.ofList_reread]
  cases LiteralSet.ofList vs <;> rfl

/-- A chain is made of operands from JSON as it is made of the operands themselves. -/
theorem ofOperands_reread (op : Connective) (ps : List Predicate) :
    ofOperands op (ps.map reread) = (ofOperands op ps).map reread := by
  rw [ofOperands, ofOperands, List.length_map]
  split
  · rfl
  · rw [← rereadAll_eq_map]
    rfl

/-- The encodings of operands are decoded as the operands that are built anew. -/
theorem ofJsonAll_toJsonAll {ps : List Predicate}
    (h : ∀ p ∈ ps, ofJson reader p.toJson = (p.rebuild.map reread).mapError .invalid) :
    ofJsonAll reader (toJsonAll ps) =
      ((rebuildAll ps).map (List.map reread)).mapError .invalid := by
  induction ps with
  | nil => rfl
  | cons p ps ih =>
    obtain ⟨hp, hps⟩ := List.forall_mem_cons.mp h
    rw [toJsonAll, ofJsonAll, hp, ih hps, rebuildAll]
    cases p.rebuild with
    | error e => rfl
    | ok q => cases rebuildAll ps <;> rfl

/-- The encoding of a predicate is decoded as the predicate built anew. -/
theorem ofJson_toJson_rebuild {p : Predicate} (h : p.Encodable) :
    ofJson reader p.toJson = (p.rebuild.map reread).mapError .invalid := by
  induction p with
  | const b => exact ofJson_const b
  | test op c => exact ofJson_test op c
  | compare op c v =>
    have hv : Literal.ofJson reader v.toJson = .ok v.reread :=
      Literal.ofJson_toJson_eq_ok_iff.mpr ⟨rfl, h v (List.mem_singleton_self v)⟩
    rw [ofJson_compare, hv]
    rfl
  | member op c s =>
    have hs : Literal.ofJsonAll reader (s.members.map Literal.toJson) =
        .ok (s.members.map Literal.reread) := Literal.ofJsonAll_toJson h
    rw [ofJson_member, hs, rebuild, ← ofMembers_reread]
    rfl
  | starts op c stem => exact ofJson_starts op c stem
  | not p ih =>
    rw [ofJson_not, ih h, rebuild]
    cases p.rebuild <;> rfl
  | chain op ps ih =>
    have hps := ofJsonAll_toJsonAll fun p hp => ih p hp (encodable_chain.mp h p hp)
    rw [ofJson_chain, hps, rebuild]
    cases rebuildAll ps with
    | error e => rfl
    | ok qs =>
      show (ofOperands op (qs.map reread)).mapError _ = _
      rw [ofOperands_reread]
      rfl

/-- The encoding of a predicate put together in any way, whose decimals are zero or have scales that
fit in 64 bits, can be decoded exactly if the predicate can be built anew. Both results are then the
same predicate up to the scales of decimals; otherwise decoding fails with the first fault. No
reader makes a difference. -/
theorem ofJson_toJson_agrees (reader : Json.Reader) {p : Predicate}
    (h : ∀ d ∈ p.decimals, d.unscaled = 0 ∨ Decimal.scaleInRange d.scale = true) :
    ((∃ q, ofJson reader p.toJson = .ok q) ↔ ∃ r, p.rebuild = .ok r) ∧
      (∀ q r, ofJson reader p.toJson = .ok q → p.rebuild = .ok r → q.same r = true) ∧
      ∀ e, p.rebuild = .error e →
        p.faults.head? = some e ∧ ofJson reader p.toJson = .error (.invalid e) ∧
          (DecodeError.invalid e).message? = some e.message := by
  rw [ofJson_toJson_rebuild (encodable_iff.mpr h), ← failure?_rebuild]
  cases p.rebuild with
  | ok r =>
    refine ⟨⟨fun _ => ⟨r, rfl⟩, fun _ => ⟨r.reread, rfl⟩⟩, ?_, ?_⟩
    · intro q r' hq hr
      cases hq
      cases hr
      exact r.same_reread
    · intro e he
      contradiction
  | error e =>
    refine ⟨⟨?_, ?_⟩, ?_, ?_⟩
    · rintro ⟨q, hq⟩
      contradiction
    · rintro ⟨r, hr⟩
      contradiction
    · intro q r hq
      contradiction
    · intro e' he
      cases he
      exact ⟨rfl, rfl, rfl⟩

/-- Of the three faults of this predicate the one of the set, which stands deepest, is reported. -/
theorem ofJson_toJson_agrees_scattered :
    let reader : Json.Reader := ⟨some, true⟩
    let p : Predicate := .chain .or
      [.compare .less ⟨"b"⟩ (.decimal ⟨15, 1⟩),
        .not (.chain .and [.member .inSet ⟨"a"⟩ ⟨[.string "x", .integer 1], .string⟩]),
        .chain .or []]
    (∀ d ∈ p.decimals, d.unscaled = 0 ∨ Decimal.scaleInRange d.scale = true) ∧
      p.faults = [.mixedTypes .integer .string, .tooFewOperands .and 1, .tooFewOperands .or 0] ∧
      p.rebuild = .error (.mixedTypes .integer .string) ∧
      ofJson reader p.toJson = .error (.invalid (.mixedTypes .integer .string)) := by
  intro reader p
  have hscales : ∀ d ∈ p.decimals, d.unscaled = 0 ∨ Decimal.scaleInRange d.scale = true := by
    decide
  have hrebuild : p.rebuild = .error (.mixedTypes .integer .string) := rfl
  obtain ⟨-, -, hfails⟩ := ofJson_toJson_agrees reader hscales
  exact ⟨hscales, rfl, hrebuild, (hfails _ hrebuild).2.1⟩

end Predicate

end RowFilter
