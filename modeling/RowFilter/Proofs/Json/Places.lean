import RowFilter.Predicate.Printer
import RowFilter.Proofs.Json.RoundTrip
import RowFilter.Proofs.Predicate.Buildable
import RowFilter.Proofs.RoundTrip.Scales

/-!
# The places that the encoding drops

The encoded form of zero is `0`, whatever its scale, so a filter such as `a = 0.00` comes back from
JSON as `a = 0`. The printed form of a scaled predicate becomes shorter by the point and the places
of every zero in it, and by nothing else. So a filter that went through JSON is printed as it was
before exactly if no decimal in it is zero; it is then the same filter, scales included.
-/

set_option autoImplicit false

namespace RowFilter

/-! ## Lengths of printed forms -/

/-- If every part of a joined text becomes shorter by some characters, the text becomes shorter by
all of them. -/
theorem Text.length_join_map {α : Type} (separator : String) {f g : α → String} {dropped : α → Nat}
    {as : List α} (h : ∀ a ∈ as, (f a).length = (g a).length + dropped a) :
    (join separator (as.map f)).length =
      (join separator (as.map g)).length + (as.map dropped).sum := by
  induction as with
  | nil => simp [join]
  | cons a as ih =>
    obtain ⟨ha, has⟩ := List.forall_mem_cons.mp h
    cases as with
    | nil => simpa [join] using ha
    | cons a' as =>
      have hrest := ih has
      simp only [List.map_cons, List.sum_cons] at hrest
      simp only [List.map_cons, List.sum_cons, join, String.length_append, ha, hrest]
      omega

/-- The number of characters that the plain form of a decimal loses: for zero the point and the
places after it. -/
def Decimal.dropped (d : Decimal) : Nat :=
  if d.unscaled = 0 then d.scale.toNat + 1 else 0

/-- The number of characters that a printed literal loses. -/
def Literal.dropped : Literal → Nat
  | decimal d => d.dropped
  | _ => 0

/-- The plain form of a decimal with places loses them in JSON only if it is zero. -/
theorem Decimal.length_plain_reread {d : Decimal} (hscale : 0 < d.scale) :
    d.plain.length = d.reread.plain.length + d.dropped := by
  by_cases hzero : d.unscaled = 0
  · have hreread : d.reread.plain = "0" := by
      rw [reread, if_pos hzero]
      rfl
    have hdigits : d.digits = ['0'] := by
      rw [digits, hzero]
      rfl
    have hplain : d.plain.length = d.scale.toNat + 2 := by
      rw [plain, hzero, if_neg (by omega), hdigits, String.length_ofList]
      simp [Text.minusSign, placePoint, zeros]
      omega
    have hlength : "0".length = 1 := by decide
    rw [hplain, hreread, hlength, dropped, if_pos hzero]
    omega
  · rw [reread_of_scale_pos hscale hzero, dropped, if_neg hzero, Nat.add_zero]

/-- A printed literal becomes shorter by the places of a zero. -/
theorem Literal.Scaled.length_render {v : Literal} (h : v.Scaled) :
    v.render.length = v.reread.render.length + v.dropped := by
  cases v with
  | decimal d => exact Decimal.length_plain_reread (h d rfl)
  | _ => exact (Nat.add_zero _).symm

/-- A printed set becomes shorter by what its members lose. -/
theorem LiteralSet.length_render {s : LiteralSet} (h : ∀ v ∈ s.members, v.Scaled) :
    s.render.length = s.reread.render.length + (s.members.map Literal.dropped).sum := by
  have hjoin := Text.length_join_map ", " fun v hv => (h v hv).length_render
  rw [render, render, String.length_append, String.length_append, String.length_append,
    String.length_append, reread, List.map_map, hjoin]
  simp only [Function.comp_def]
  omega

namespace Predicate

/-- JSON keeps chains as chains, so the parentheses around them stay. -/
theorem isChain_reread (p : Predicate) : p.reread.isChain = p.isChain := by
  cases p <;> rfl

/-- Only chains are printed with two characters more, their parentheses. -/
theorem length_grouped (p : Predicate) (text : String) :
    (grouped p text).length = text.length + if p.isChain then 2 else 0 := by
  rw [grouped]
  split
  · rw [String.length_append, String.length_append]
    show 1 + text.length + 1 = _
    omega
  · rfl

/-- What the literals of operands lose is the sum of what each operand loses. -/
theorem sum_dropped_literalsAll (ps : List Predicate) :
    ((literalsAll ps).map Literal.dropped).sum =
      (ps.map fun p => (p.literals.map Literal.dropped).sum).sum := by
  induction ps with
  | nil => rfl
  | cons p ps ih => simp [literalsAll, ih]

/-- The printed form of a scaled predicate becomes shorter by what its literals lose. -/
theorem length_render {p : Predicate} (h : p.Scaled) :
    p.render.length = p.reread.render.length + (p.literals.map Literal.dropped).sum := by
  induction p with
  | const b => exact (Nat.add_zero _).symm
  | test op c => exact (Nat.add_zero _).symm
  | compare op c v =>
    have hv := (h v (List.mem_singleton_self v)).length_render
    simp only [render, reread, literals, String.length_append, List.map_cons, List.map_nil,
      List.sum_cons, List.sum_nil, hv]
    omega
  | member op c s =>
    have hs := LiteralSet.length_render h
    simp only [render, reread, literals, String.length_append, hs]
    omega
  | starts op c stem => exact (Nat.add_zero _).symm
  | not p ih =>
    simp only [render, reread, literals, String.length_append, length_grouped, isChain_reread, ih h]
    omega
  | chain op ps ih =>
    have hoperand : ∀ p ∈ ps, (grouped p p.render).length =
        (grouped p.reread p.reread.render).length + (p.literals.map Literal.dropped).sum := by
      intro p hp
      rw [length_grouped, length_grouped, isChain_reread, ih p hp (scaled_chain.mp h p hp)]
      omega
    have hjoin := Text.length_join_map (" " ++ op.text ++ " ") hoperand
    rw [render, renderOperands_eq_map, hjoin, reread, render, renderOperands_eq_map,
      rereadAll_eq_map, List.map_map, literals, sum_dropped_literalsAll]
    rfl

/-- Nothing is lost exactly if no decimal is zero. -/
theorem dropped_eq_zero_iff {p : Predicate} :
    (p.literals.map Literal.dropped).sum = 0 ↔ ∀ d ∈ p.decimals, d.unscaled ≠ 0 := by
  rw [List.sum_eq_zero_iff_forall_eq_nat, List.forall_mem_map]
  constructor
  · intro h d hd hzero
    have hdropped : d.dropped = 0 := h _ (mem_decimals.mp hd)
    rw [Decimal.dropped, if_pos hzero] at hdropped
    contradiction
  · intro h v hv
    cases v with
    | decimal d => exact if_neg (h d (mem_decimals.mpr hv))
    | _ => rfl

/-- A scaled predicate without zeros comes back as it was. -/
theorem reread_eq_self {p : Predicate} (h : p.Scaled) (hne : ∀ d ∈ p.decimals, d.unscaled ≠ 0) :
    p.reread = p := by
  have hliteral : ∀ v ∈ p.literals, v.reread = v := by
    intro v hv
    cases v with
    | decimal d =>
      exact congrArg Literal.decimal
        (Decimal.reread_of_scale_pos (h _ hv d rfl) (hne d (mem_decimals.mpr hv)))
    | _ => rfl
  -- the two conditions are about the literals alone, and these are settled
  clear h hne
  induction p with
  | const b => rfl
  | test op c => rfl
  | compare op c v => rw [reread, hliteral v (List.mem_singleton_self v)]
  | member op c s =>
    have hmembers : s.members.map Literal.reread = s.members :=
      (List.map_congr_left hliteral).trans (List.map_id _)
    rw [reread, LiteralSet.reread, hmembers]
  | starts op c stem => rfl
  | not p ih => rw [reread, ih hliteral]
  | chain op ps ih =>
    have hoperands : ps.map reread = ps := by
      refine (List.map_congr_left ?_).trans (List.map_id _)
      intro p hp
      apply ih p hp
      intro v hv
      apply hliteral v
      rw [literals, literalsAll_eq_flatMap]
      exact List.mem_flatMap.mpr ⟨p, hp, hv⟩
    rw [reread, rereadAll_eq_map, hoperands]

end Predicate

/-- JSON and the written scales: a filter is decoded from its encoding with the printed form that it
had exactly if every decimal in it is other than zero and has a scale that fits in 64 bits. Exactly
then it is decoded as it was. The scales fit in every text of fewer than `2 ^ 63` characters. -/
theorem ofJson_toJson_render_iff (reader : Json.Reader) {text : String} {p : Predicate}
    (h : parse text = .ok p) :
    ((∃ q, Predicate.ofJson reader p.toJson = .ok q ∧ q.render = p.render) ↔
      ∀ d ∈ p.decimals, d.unscaled ≠ 0 ∧ Decimal.scaleInRange d.scale = true) ∧
    (Predicate.ofJson reader p.toJson = .ok p ↔
      ∀ d ∈ p.decimals, d.unscaled ≠ 0 ∧ Decimal.scaleInRange d.scale = true) ∧
    (text.length < 2 ^ 63 → ∀ d ∈ p.decimals, Decimal.scaleInRange d.scale = true) := by
  have hp := wellFormed_of_parseWith h
  have hscaled := scaled_of_parseWith h
  have hforward {q : Predicate} (hq : Predicate.ofJson reader p.toJson = .ok q)
      (hrender : q.render = p.render) :
      ∀ d ∈ p.decimals, d.unscaled ≠ 0 ∧ Decimal.scaleInRange d.scale = true := by
    obtain ⟨rfl, hencodable⟩ := (Predicate.ofJson_toJson_eq_ok_iff hp).mp hq
    have hlength := Predicate.length_render hscaled
    rw [hrender] at hlength
    -- the printed forms are equally long, so nothing was dropped
    have hne := Predicate.dropped_eq_zero_iff.mp (Nat.add_eq_left.mp hlength.symm)
    intro d hd
    have hd' := Predicate.encodable_iff.mp hencodable d hd
    exact ⟨hne d hd, (Decimal.encodable_iff (hne d hd)).mp hd'⟩
  have hbackward (hall : ∀ d ∈ p.decimals, d.unscaled ≠ 0 ∧ Decimal.scaleInRange d.scale = true) :
      Predicate.ofJson reader p.toJson = .ok p := by
    have hself := Predicate.reread_eq_self hscaled fun d hd => (hall d hd).1
    rw [Predicate.ofJson_toJson_eq_ok_iff hp, Predicate.encodable_iff]
    exact ⟨hself.symm, fun d hd => Or.inr (hall d hd).2⟩
  refine ⟨⟨?_, fun hall => ⟨p, hbackward hall, rfl⟩⟩, ⟨fun hq => hforward hq rfl, hbackward⟩, ?_⟩
  · rintro ⟨q, hq, hrender⟩
    exact hforward hq hrender
  · intro hlength d hd
    obtain ⟨hpos, hle⟩ := scale_of_parseWith h (Predicate.mem_decimals.mp hd)
    rw [String.length_toList] at hle
    exact Decimal.scaleInRange_iff.mpr (by omega)

/-- The zero in `a = 0.00` has two places. -/
theorem parse_zero : parse "a = 0.00" = .ok (.compare .equal ⟨"a"⟩ (.decimal ⟨0, 2⟩)) := by
  rw [parse, Grammar.parseWith_eq_ok_iff]
  refine ⟨?_, .alone (.leaf (.compare (.path "a" []) .equal (.decimal ⟨0, 2⟩))), ?_, ?_⟩
  · unfold TokenStream.Clean
    decide +kernel
  · decide +kernel
  · rfl

/-- The zero comes back from JSON without its places, with every reader. -/
theorem ofJson_toJson_render_iff_zero :
    parse "a = 0.00" = .ok (.compare .equal ⟨"a"⟩ (.decimal ⟨0, 2⟩)) ∧
      ¬ ∃ reader q,
        Predicate.ofJson reader (Predicate.compare .equal ⟨"a"⟩ (.decimal ⟨0, 2⟩)).toJson = .ok q ∧
          q.render = (Predicate.compare .equal ⟨"a"⟩ (.decimal ⟨0, 2⟩)).render := by
  refine ⟨parse_zero, ?_⟩
  rintro ⟨reader, hq⟩
  have hzero := (ofJson_toJson_render_iff reader parse_zero).1.mp hq
  revert hzero
  decide

/-- Not every filter is printed after decoding as it was before encoding, whatever the reader. -/
theorem not_forall_ofJson_toJson_render :
    ¬ ∃ reader, ∀ text p, parse text = .ok p →
      ∃ q, Predicate.ofJson reader p.toJson = .ok q ∧ q.render = p.render := by
  rintro ⟨reader, h⟩
  obtain ⟨q, hq, hrender⟩ := h _ _ parse_zero
  have hdecoded : q = .compare .equal ⟨"a"⟩ (.decimal ⟨0, 0⟩) :=
    (Except.ok.inj hq).symm
  rw [hdecoded] at hrender
  revert hrender
  decide

end RowFilter
