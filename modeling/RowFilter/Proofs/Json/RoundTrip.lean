import RowFilter.Json.Decode
import RowFilter.Proofs.Decimal.Encoded
import RowFilter.Proofs.Predicate.Parts
import RowFilter.Proofs.RoundTrip.Meaning

/-!
# Decoding what was encoded

Decoding the encoding of a well-formed predicate yields the predicate with every decimal in it
replaced by the one that its encoded form is read as. This is the same predicate up to the scales of
decimals. The only thing that can go wrong is a decimal other than zero whose scale is not in the
range of scales. No encoding holds a float or a leaf in the form of a list, so all this is the same
for every reader.
-/

set_option autoImplicit false

namespace RowFilter

variable {reader : Json.Reader}

/-- What is done with a value gives a value exactly if there is one. -/
theorem map_eq_ok {ε α β : Type} {x : Except ε α} {f : α → β} {b : β} :
    x.map f = .ok b ↔ ∃ a, x = .ok a ∧ b = f a := by
  cases x <;> simp [Except.map, eq_comm]

/-- If every item of a list is decoded exactly as `r` says and under a condition on the item, then
so is the list. -/
theorem mapM_map_eq_ok_iff {ε α β γ : Type} {encode : α → γ} {decode : γ → Except ε β} {r : α → β}
    {P : α → Prop} {as : List α} (h : ∀ a ∈ as, ∀ b, decode (encode a) = .ok b ↔ b = r a ∧ P a)
    {bs : List β} :
    (as.map encode).mapM decode = .ok bs ↔ bs = as.map r ∧ ∀ a ∈ as, P a := by
  induction as generalizing bs with
  | nil => simp [pure, Except.pure, eq_comm]
  | cons a as ih =>
    obtain ⟨ha, has⟩ := List.forall_mem_cons.mp h
    rw [List.map_cons, List.mapM_cons, bind_eq_ok, List.map_cons, List.forall_mem_cons]
    constructor
    · rintro ⟨b, hb, hrest⟩
      obtain ⟨bs', hbs, hcons⟩ := bind_eq_ok.mp hrest
      obtain ⟨rfl, hP⟩ := (ha b).mp hb
      obtain ⟨rfl, hPs⟩ := (ih has).mp hbs
      cases hcons
      exact ⟨rfl, hP, hPs⟩
    · rintro ⟨rfl, hP, hPs⟩
      refine ⟨r a, (ha _).mpr ⟨rfl, hP⟩, bind_eq_ok.mpr ⟨as.map r, ?_, rfl⟩⟩
      exact (ih has).mpr ⟨rfl, hPs⟩

/-- The value with an object under its tag written as the list of what the fields hold. -/
def Json.listed : Json → Json
  | .object [(tag, .object fields)] => .tagged tag (.array (fields.map Prod.snd))
  | j => j

/-! ## Literals -/

namespace Literal

/-- The literal that the encoding of a literal is decoded as. -/
def reread : Literal → Literal
  | decimal d => decimal d.reread
  | v => v

/-- The encoding of the literal can be decoded. -/
def Encodable (v : Literal) : Prop :=
  ∀ d, v = decimal d → d.Encodable

/-- The encoding of a literal is decoded as the literal `reread`, and only if a decimal in it can be
decoded. -/
theorem ofJson_toJson_eq_ok_iff {v w : Literal} :
    ofJson reader v.toJson = .ok w ↔ w = v.reread ∧ v.Encodable := by
  have hpayload : ofJson reader v.toJson = ofPayload reader v.type v.payload := by
    cases v <;> rfl
  rw [hpayload]
  cases v with
  | boolean b => simp [ofPayload, type, payload, reread, Encodable, eq_comm]
  | integer n =>
    simp [ofPayload, type, payload, reread, Encodable, Text.fitsInt64_toInt, eq_comm]
  | decimal d =>
    have hencodable : (decimal d).Encodable ↔ d.Encodable := by
      simp [Encodable]
    have hdecode {e : Decimal} : Decimal.ofJson reader (.string d.encoded) = .ok e ↔
        e = d.reread ∧ d.Encodable := by
      rw [← Decimal.ofText_encoded_eq_ok_iff, Decimal.ofJson]
      split
      · rename_i f hf
        rw [hf]
        simp only [Except.ok.injEq]
      · rename_i fault hfault
        rw [hfault]
        simp only [reduceCtorEq]
    show (Decimal.ofJson reader (.string d.encoded)).map decimal = .ok w ↔ _
    rw [hencodable, reread, map_eq_ok]
    constructor
    · rintro ⟨e, he, rfl⟩
      obtain ⟨rfl, hd⟩ := hdecode.mp he
      exact ⟨rfl, hd⟩
    · rintro ⟨rfl, hd⟩
      exact ⟨d.reread, hdecode.mpr ⟨rfl, hd⟩, rfl⟩
  | string s => simp [ofPayload, type, payload, reread, Encodable, eq_comm]

/-- Literals are decoded one by one, up to the first error. -/
theorem ofJsonAll_eq_mapM (js : List Json) : ofJsonAll reader js = js.mapM (ofJson reader) := by
  induction js with
  | nil => rfl
  | cons j js ih =>
    rw [ofJsonAll, List.mapM_cons, ih]

/-- JSON keeps the type of a literal. -/
theorem type_reread (v : Literal) : v.reread.type = v.type := by
  cases v <;> rfl

/-- A literal from JSON is as great as it was. -/
theorem compare_reread (v : Literal) : compare v.reread v = .eq := by
  cases v with
  | decimal d =>
    show compare d.reread d = .eq
    rw [Decimal.compare_eq_compare_value, Decimal.value_reread]
    exact Std.ReflCmp.compare_self
  | _ => exact Std.ReflCmp.compare_self

/-- JSON keeps the order of literals. -/
theorem compare_reread_reread (v w : Literal) : compare v.reread w.reread = compare v w := by
  rw [Std.TransCmp.congr_left v.compare_reread, Std.TransCmp.congr_right w.compare_reread]

end Literal

/-! ## Sets -/

namespace LiteralSet

/-- The set that the encoding of a set is decoded as. -/
def reread (s : LiteralSet) : LiteralSet :=
  ⟨s.members.map Literal.reread, s.type⟩

/-- The members keep their order, so they are still a set. -/
theorem Valid.reread {s : LiteralSet} (h : s.Valid) : s.reread.Valid := by
  have hascending : Ascending s.reread.members := by
    rw [Ascending, LiteralSet.reread, List.pairwise_map]
    simp only [Literal.compare_reread_reread]
    exact h.ascending
  refine ⟨?_, hascending, hascending.distinct, ?_⟩
  · rw [LiteralSet.reread, Ne, List.map_eq_nil_iff]
    exact h.nonempty
  · rw [LiteralSet.reread, List.forall_mem_map]
    intro v hv
    rw [v.type_reread]
    exact h.typed v hv

/-- JSON keeps a set up to the scales of decimals. -/
theorem same_reread (s : LiteralSet) : s.reread.same s = true := by
  have hmembers (vs : List Literal) : sameMembers (vs.map Literal.reread) vs = true := by
    induction vs with
    | nil => rfl
    | cons v vs ih =>
      rw [List.map_cons, sameMembers, ih, Literal.same, v.compare_reread]
      rfl
  rw [same, reread, hmembers, decide_eq_true rfl, Bool.and_self]

end LiteralSet

/-! ## Predicates -/

namespace Predicate

mutual

/-- The predicate that the encoding of a predicate is decoded as. -/
def reread : Predicate → Predicate
  | const value => const value
  | test op column => test op column
  | compare op column value => compare op column value.reread
  | member op column values => member op column values.reread
  | starts op column stem => starts op column stem
  | not operand => not (reread operand)
  | chain op operands => chain op (rereadAll operands)

/-- The predicates that the encodings of all the predicates are decoded as. -/
def rereadAll : List Predicate → List Predicate
  | [] => []
  | p :: ps => reread p :: rereadAll ps

end

/-- Operands come back from JSON one by one. -/
theorem rereadAll_eq_map (ps : List Predicate) : rereadAll ps = ps.map reread := by
  induction ps with
  | nil => rfl
  | cons p ps ih => simp [rereadAll, ih]

/-- The encoding of every literal in the predicate can be decoded. -/
def Encodable (p : Predicate) : Prop :=
  ∀ v ∈ p.literals, v.Encodable

/-- The encoding of a predicate can be decoded exactly if those of its decimals can. -/
theorem encodable_iff {p : Predicate} : p.Encodable ↔ ∀ d ∈ p.decimals, d.Encodable := by
  constructor
  · intro h d hd
    exact h _ (mem_decimals.mp hd) d rfl
  · rintro h v hv d rfl
    exact h d (mem_decimals.mpr hv)

/-- The encoding of a chain can be decoded exactly if those of its operands can. -/
theorem encodable_chain {op : Connective} {ps : List Predicate} :
    (chain op ps).Encodable ↔ ∀ p ∈ ps, p.Encodable := by
  show (∀ v ∈ literalsAll ps, v.Encodable) ↔ _
  rw [literalsAll_eq_flatMap, List.forall_mem_flatMap]
  rfl

/-- Decoding keeps a predicate up to the scales of its decimals. -/
theorem same_reread (p : Predicate) : p.reread.same p = true := by
  induction p with
  | const b => simp [reread, same]
  | test op c => simp [reread, same]
  | compare op c v => simp [reread, same, Literal.same, Literal.compare_reread]
  | member op c s => simp [reread, same, LiteralSet.same_reread]
  | starts op c stem => simp [reread, same]
  | not p ih => exact ih
  | chain op ps ih =>
    have hall : sameAll (rereadAll ps) ps = true := by
      induction ps with
      | nil => rfl
      | cons p ps ihps =>
        obtain ⟨hp, hps⟩ := List.forall_mem_cons.mp ih
        rw [rereadAll, sameAll, hp, ihps hps, Bool.and_self]
    rw [reread, same, hall, decide_eq_true rfl, Bool.and_self]

/-- Operands are decoded one by one, up to the first error. -/
theorem ofJsonAll_eq_mapM (js : List Json) : ofJsonAll reader js = js.mapM (ofJson reader) := by
  induction js with
  | nil => rfl
  | cons j js ih => rw [ofJsonAll, List.mapM_cons, ih]

/-! ### One level of an encoding -/

/-- The encoding of a constant is decoded as the constant. -/
theorem ofJson_const (b : Bool) : ofJson reader (const b).toJson = .ok (const b) := by
  cases b <;> rfl

/-- The encoding of a column test is decoded as the test. -/
theorem ofJson_test (op : ColumnTest) (c : Column) :
    ofJson reader (test op c).toJson = .ok (test op c) := by
  cases op <;> rfl

/-- The encoding of a comparison is decoded as far as its literal is. -/
theorem ofJson_compare (op : Comparison) (c : Column) (v : Literal) :
    ofJson reader (compare op c v).toJson =
      (Literal.ofJson reader v.toJson).map (compare op c) := by
  cases op <;> rfl

/-- The encoding of a membership test is decoded member by member, and a set is made of the members.
-/
theorem ofJson_member (op : Membership) (c : Column) (s : LiteralSet) :
    ofJson reader (member op c s).toJson =
      (Literal.ofJsonAll reader (s.members.map Literal.toJson) >>= fun vs =>
        (ofMembers op c vs).mapError .invalid) := by
  cases op <;> rfl

/-- The encoding of a start test is decoded as the test. -/
theorem ofJson_starts (op : StartTest) (c : Column) (stem : String) :
    ofJson reader (starts op c stem).toJson = .ok (starts op c stem) := by
  cases op <;> rfl

/-- The encoding of a negation is decoded as far as its operand is. -/
theorem ofJson_not (p : Predicate) :
    ofJson reader p.not.toJson = (ofJson reader p.toJson).map not := rfl

/-- The encoding of a chain is decoded operand by operand, and a chain is made of the operands. -/
theorem ofJson_chain (op : Connective) (ps : List Predicate) :
    ofJson reader (chain op ps).toJson =
      (ofJsonAll reader (toJsonAll ps) >>= fun qs => (ofOperands op qs).mapError .invalid) := by
  cases op <;> rfl

/-- Where lists are allowed, a leaf is decoded alike from its encoding and from the list of what the
fields of its encoding hold. So the encoder writes the fields in the order in which the decoder has
their names. -/
theorem ofJson_listed (hlists : reader.lists = true) {p : Predicate} (hp : p.isLeaf = true) :
    ofJson reader p.toJson.listed = ofJson reader p.toJson := by
  have hrecord (names : List String) (items : List Json) (hlength : items.length = names.length) :
      Json.record names reader.lists (.array items) = .ok (names.zip items) := by
    rw [Json.record, if_pos ⟨hlists, hlength⟩]
  cases p with
  | const b => rfl
  | not p => contradiction
  | chain op ps => contradiction
  | _ =>
    -- the leaf decoder gets the same fields in both forms
    show (Json.record _ _ (.array _) >>= _) = _
    rw [hrecord _ _ rfl]
    rfl

example : ofJson ⟨some, true⟩ (.tagged "Unary" (.array [.string "IsNull", .string "a"])) =
    .ok (test .isNull ⟨"a"⟩) := rfl

/-! ### Well-formed predicates -/

/-- A comparison comes back from JSON exactly if its literal does. -/
theorem ofJson_toJson_compare {op : Comparison} {c : Column} {v : Literal} {q : Predicate} :
    ofJson reader (compare op c v).toJson = .ok q ↔ q = (compare op c v).reread ∧ v.Encodable := by
  rw [ofJson_compare, reread, map_eq_ok]
  constructor
  · rintro ⟨w, hw, rfl⟩
    obtain ⟨rfl, hv⟩ := Literal.ofJson_toJson_eq_ok_iff.mp hw
    exact ⟨rfl, hv⟩
  · rintro ⟨rfl, hv⟩
    exact ⟨v.reread, Literal.ofJson_toJson_eq_ok_iff.mpr ⟨rfl, hv⟩, rfl⟩

/-- The members of a set are decoded one by one and make up a set again. -/
theorem ofJson_toJson_member {op : Membership} {c : Column} {s : LiteralSet} (hs : s.Valid)
    {q : Predicate} :
    ofJson reader (member op c s).toJson = .ok q ↔
      q = (member op c s).reread ∧ ∀ v ∈ s.members, v.Encodable := by
  have hbuild : ofMembers op c (s.members.map Literal.reread) = .ok (member op c s.reread) :=
    ofMembers_eq_ok_iff.mpr ⟨s.reread, LiteralSet.ofList_members hs.reread, rfl⟩
  have hmembers {vs : List Literal} := @mapM_map_eq_ok_iff _ _ _ _ Literal.toJson
    (Literal.ofJson reader) _ _ s.members (fun v _ w => Literal.ofJson_toJson_eq_ok_iff) vs
  rw [ofJson_member, Literal.ofJsonAll_eq_mapM, bind_eq_ok, reread]
  constructor
  · rintro ⟨vs, hvs, hq⟩
    obtain ⟨rfl, hencodable⟩ := hmembers.mp hvs
    rw [hbuild] at hq
    cases hq
    exact ⟨rfl, hencodable⟩
  · rintro ⟨rfl, hencodable⟩
    refine ⟨_, hmembers.mpr ⟨rfl, hencodable⟩, ?_⟩
    rw [hbuild]
    rfl

/-- The operands of a chain are decoded one by one and are still enough. -/
theorem ofJson_toJson_chain {op : Connective} {ps : List Predicate} (hlength : 2 ≤ ps.length)
    (h : ∀ p ∈ ps, ∀ q, ofJson reader p.toJson = .ok q ↔ q = p.reread ∧ p.Encodable)
    {q : Predicate} :
    ofJson reader (chain op ps).toJson = .ok q ↔
      q = (chain op ps).reread ∧ ∀ p ∈ ps, p.Encodable := by
  have hbuild : ofOperands op (ps.map reread) = .ok (chain op (ps.map reread)) := by
    rw [ofOperands_eq_ok_iff, List.length_map]
    exact ⟨hlength, rfl⟩
  rw [ofJson_chain, ofJsonAll_eq_mapM, toJsonAll_eq_map, bind_eq_ok, reread, rereadAll_eq_map]
  constructor
  · rintro ⟨qs, hqs, hq⟩
    obtain ⟨rfl, hencodable⟩ := (mapM_map_eq_ok_iff h).mp hqs
    rw [hbuild] at hq
    cases hq
    exact ⟨rfl, hencodable⟩
  · rintro ⟨rfl, hencodable⟩
    refine ⟨_, (mapM_map_eq_ok_iff h).mpr ⟨rfl, hencodable⟩, ?_⟩
    rw [hbuild]
    rfl

/-- The encoding of a well-formed predicate is decoded as the predicate `reread`, and only if all
its decimals can be decoded. -/
theorem ofJson_toJson_eq_ok_iff {p : Predicate} (hp : p.WellFormed) {q : Predicate} :
    ofJson reader p.toJson = .ok q ↔ q = p.reread ∧ p.Encodable := by
  induction p generalizing q with
  | const b =>
    rw [ofJson_const]
    simp [reread, Encodable, literals, eq_comm]
  | test op c =>
    rw [ofJson_test]
    simp [reread, Encodable, literals, eq_comm]
  | compare op c v =>
    rw [ofJson_toJson_compare, Encodable, literals, List.forall_mem_singleton]
  | member op c s =>
    rw [ofJson_toJson_member hp]
    rfl
  | starts op c stem =>
    rw [ofJson_starts]
    simp [reread, Encodable, literals, eq_comm]
  | not p ih =>
    rw [ofJson_not, map_eq_ok, reread]
    constructor
    · rintro ⟨r, hr, rfl⟩
      obtain ⟨rfl, hencodable⟩ := (ih hp).mp hr
      exact ⟨rfl, hencodable⟩
    · rintro ⟨rfl, hencodable⟩
      exact ⟨p.reread, (ih hp).mpr ⟨rfl, hencodable⟩, rfl⟩
  | chain op ps ih =>
    obtain ⟨hlength, hps⟩ := wellFormed_chain.mp hp
    rw [encodable_chain]
    apply ofJson_toJson_chain hlength
    intro p hp q
    exact ih p hp (hps p hp)

/-- The encoding of a well-formed predicate can be decoded exactly if every decimal in it is zero or
has a scale that fits in 64 bits, and whatever is decoded is the same predicate up to the scales of
decimals. No reader makes a difference. -/
theorem ofJson_toJson_same (reader : Json.Reader) {p : Predicate} (hp : p.WellFormed) :
    ((∃ q, ofJson reader p.toJson = .ok q) ↔
      ∀ d ∈ p.decimals, d.unscaled = 0 ∨ Decimal.scaleInRange d.scale = true) ∧
    ∀ q, ofJson reader p.toJson = .ok q → q.same p = true := by
  have hencodable : p.Encodable ↔
      ∀ d ∈ p.decimals, d.unscaled = 0 ∨ Decimal.scaleInRange d.scale = true := encodable_iff
  constructor
  · rw [← hencodable]
    constructor
    · rintro ⟨q, hq⟩
      exact ((ofJson_toJson_eq_ok_iff hp).mp hq).2
    · intro h
      exact ⟨p.reread, (ofJson_toJson_eq_ok_iff hp).mpr ⟨rfl, h⟩⟩
  · intro q hq
    obtain ⟨rfl, -⟩ := (ofJson_toJson_eq_ok_iff hp).mp hq
    exact p.same_reread

/-- The decimals of this predicate are written as `-5e+20`, `0`, `1.234E-9` and `12000`. -/
theorem ofJson_toJson_same_notations :
    let reader : Json.Reader := ⟨some, true⟩
    let set : LiteralSet :=
      ⟨[.decimal ⟨-5, -20⟩, .decimal ⟨0, 7⟩, .decimal ⟨1234, 12⟩], .decimal⟩
    let p : Predicate := .not (.chain .or
      [.member .notInSet ⟨"a.b"⟩ set, .compare .less ⟨"c d"⟩ (.decimal ⟨12, -3⟩),
        .chain .and [.const true, .starts .startsWith ⟨"\n"⟩ "%"]])
    p.WellFormed ∧ (∃ q, ofJson reader p.toJson = .ok q) ∧
      ∀ q, ofJson reader p.toJson = .ok q → q.same p = true := by
  intro reader set p
  have hset : set.Valid := by
    apply @LiteralSet.valid_of_ofList set.members
    rfl
  have hp : p.WellFormed := by
    simp [p, wellFormed_chain, hset]
  have h := ofJson_toJson_same reader hp
  refine ⟨hp, h.1.mpr ?_, h.2⟩
  decide

end Predicate

end RowFilter
