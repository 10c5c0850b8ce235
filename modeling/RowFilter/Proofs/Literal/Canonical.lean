import Mathlib.Data.List.Induction
import Mathlib.Data.List.Pairwise
import RowFilter.Proofs.Literal.Set

/-!
# Sets do not depend on how they are written

The set of a list of literals depends only on which literals occur in the list, up to the scales of
decimals: neither their order nor repetition matters. Of equal literals the one written last is the
member. A list that makes up no set is answered in the same spirit: the error names the two lowest
types in the list, wherever the literals of these types stand.

An ascending list is known from its members, since two ascending lists with equal members have equal
heads. Sorting keeps the members, so everything is said of sorted lists first.
-/

set_option autoImplicit false

namespace RowFilter

namespace Literal

/-- Literals are the same exactly if the order does not tell them apart. -/
theorem same_iff {v w : Literal} : v.same w = true ↔ compare v w = .eq :=
  beq_iff_eq

/-- Sameness goes both ways. -/
theorem same_symm {v w : Literal} (h : v.same w = true) : w.same v = true :=
  same_iff.mpr (Std.OrientedCmp.eq_symm (same_iff.mp h))

/-- Sameness is passed on. -/
theorem same_trans {u v w : Literal} (h : u.same v = true) (h' : v.same w = true) :
    u.same w = true :=
  same_iff.mpr (Std.TransCmp.eq_trans (same_iff.mp h) (same_iff.mp h'))

end Literal

namespace LiteralSet

open Literal

/-! ## Coverage -/

/-- Every literal of the first list equals some literal of the second. -/
def Covered (vs ws : List Literal) : Prop :=
  ∀ v ∈ vs, ∃ w ∈ ws, v.same w = true

/-- A list is covered by every list that has all its literals. -/
theorem covered_of_subset {vs ws : List Literal} (h : vs ⊆ ws) : Covered vs ws := by
  intro v hv
  exact ⟨v, h hv, same_iff.mpr Std.ReflCmp.compare_self⟩

/-- Covering is passed on. -/
theorem Covered.trans {us vs ws : List Literal} (h : Covered us vs) (h' : Covered vs ws) :
    Covered us ws := by
  intro u hu
  obtain ⟨v, hv, huv⟩ := h u hu
  obtain ⟨w, hw, hvw⟩ := h' v hv
  exact ⟨w, hw, same_trans huv hvw⟩

/-- The empty list covers no other list. -/
theorem not_covered_nil (v : Literal) (vs : List Literal) : ¬ Covered (v :: vs) [] := by
  intro h
  obtain ⟨w, hw, -⟩ := h v List.mem_cons_self
  contradiction

/-- What covers a literal has a literal of its type. -/
theorem Covered.exists_type {vs ws : List Literal} (h : Covered vs ws) {t : LiteralType}
    (ht : ∃ v ∈ vs, v.type = t) : ∃ w ∈ ws, w.type = t := by
  obtain ⟨v, hv, rfl⟩ := ht
  obtain ⟨w, hw, hvw⟩ := h v hv
  exact ⟨w, hw, (type_eq_of_compare (same_iff.mp hvw)).symm⟩

/-- Sorting drops a literal only if it keeps the same one. -/
theorem covered_sort (vs : List Literal) : Covered vs (sort vs) := by
  intro v hv
  obtain ⟨w, hw, heq⟩ := exists_mem_sort hv
  exact ⟨w, hw, same_iff.mpr heq⟩

/-- Sorting adds no literal. -/
theorem sort_covered (vs : List Literal) : Covered (sort vs) vs :=
  covered_of_subset fun _ hv => mem_of_mem_sort hv

/-! ## Ascending lists -/

/-- Below equal heads the tails of ascending lists cover each other if the lists do. -/
theorem Covered.tail {v w : Literal} {vs ws : List Literal} (h : Covered (v :: vs) (w :: ws))
    (hvs : ∀ u ∈ vs, compare v u = .lt) (hvw : compare v w = .eq) : Covered vs ws := by
  intro u hu
  obtain ⟨x, hx, hux⟩ := h u (List.mem_cons_of_mem _ hu)
  rcases List.mem_cons.mp hx with rfl | hx
  · have heq : compare v u = .eq := Std.TransCmp.eq_trans hvw (same_iff.mp (same_symm hux))
    rw [hvs u hu] at heq
    contradiction
  · exact ⟨x, hx, hux⟩

/-- Ascending lists that cover each other begin with equal literals: each head is the least literal
of its list. -/
theorem Covered.head {v w : Literal} {vs ws : List Literal} (h : Covered (v :: vs) (w :: ws))
    (h' : Covered (w :: ws) (v :: vs)) (hvs : ∀ u ∈ vs, compare v u = .lt)
    (hws : ∀ u ∈ ws, compare w u = .lt) : compare v w = .eq := by
  obtain ⟨x, hx, hvx⟩ := h v List.mem_cons_self
  obtain ⟨y, hy, hwy⟩ := h' w List.mem_cons_self
  rw [same_iff] at hvx hwy
  rcases List.mem_cons.mp hx with rfl | hx
  · exact hvx
  rcases List.mem_cons.mp hy with rfl | hy
  · exact Std.OrientedCmp.eq_symm hwy
  · have hvw : compare v w = .lt :=
      Std.TransCmp.lt_of_lt_of_eq (hvs y hy) (Std.OrientedCmp.eq_symm hwy)
    have hwv : compare w v = .lt :=
      Std.TransCmp.lt_of_lt_of_eq (hws x hx) (Std.OrientedCmp.eq_symm hvx)
    exact absurd hwv (Std.OrientedCmp.not_lt_of_lt hvw)

/-- Ascending lists agree member by member exactly if they cover each other. -/
theorem sameMembers_iff {vs ws : List Literal} (hvs : Ascending vs) (hws : Ascending ws) :
    sameMembers vs ws = true ↔ Covered vs ws ∧ Covered ws vs := by
  induction vs generalizing ws with
  | nil =>
    cases ws with
    | nil => simp [sameMembers, Covered]
    | cons w ws => simp only [sameMembers, Bool.false_eq_true, not_covered_nil, and_false]
  | cons v vs ih =>
    cases ws with
    | nil => simp only [sameMembers, Bool.false_eq_true, not_covered_nil, false_and]
    | cons w ws =>
      obtain ⟨hv, hvs⟩ := List.pairwise_cons.mp hvs
      obtain ⟨hw, hws⟩ := List.pairwise_cons.mp hws
      rw [sameMembers, Bool.and_eq_true, ih hvs hws]
      constructor
      · rintro ⟨hvw, hleft, hright⟩
        constructor
        · exact List.forall_mem_cons.mpr ⟨⟨w, List.mem_cons_self, hvw⟩,
            hleft.trans (covered_of_subset (List.subset_cons_self w ws))⟩
        · exact List.forall_mem_cons.mpr ⟨⟨v, List.mem_cons_self, same_symm hvw⟩,
            hright.trans (covered_of_subset (List.subset_cons_self v vs))⟩
      · rintro ⟨hleft, hright⟩
        have hvw := hleft.head hright hv hw
        exact ⟨same_iff.mpr hvw, hleft.tail hv hvw, hright.tail hw (Std.OrientedCmp.eq_symm hvw)⟩

/-! ## The literal that is kept -/

/-- The literal stands in the list, and none after it equals it. -/
def LastWritten (m : Literal) (vs : List Literal) : Prop :=
  ∃ before after, vs = before ++ m :: after ∧ ∀ w ∈ after, m.same w = false

/-- An inserted literal takes the place of the one that equals it. -/
theorem eq_or_same_of_mem_insert {u v : Literal} {ws : List Literal} (hws : Ascending ws)
    (h : u ∈ insert v ws) : u = v ∨ u ∈ ws ∧ u.same v = false := by
  by_cases huv : u = v
  · exact Or.inl huv
  · have hsymm : Std.Symm fun a b : Literal => a.same b = false := by
      constructor
      intro a b hab
      rw [← Bool.not_eq_true] at hab ⊢
      exact fun hba => hab (same_symm hba)
    have hdistinct := (ascending_insert v hws).distinct.forall h (self_mem_insert v ws) huv
    exact Or.inr ⟨(mem_of_mem_insert h).resolve_left huv, hdistinct⟩

/-- The literal that is written last is inserted last. -/
theorem sort_append_singleton (vs : List Literal) (v : Literal) :
    sort (vs ++ [v]) = insert v (sort vs) := by
  rw [sort, List.foldl_append]
  rfl

/-- The induction is on the list from its end: the literal at the end stays, and takes the place of
what equals it. -/
theorem lastWritten_of_mem_sort {vs : List Literal} {m : Literal} (h : m ∈ sort vs) :
    LastWritten m vs := by
  induction vs using List.reverseRecOn with
  | nil => contradiction
  | append_singleton vs v ih =>
    rw [sort_append_singleton] at h
    rcases eq_or_same_of_mem_insert (ascending_sort vs) h with rfl | ⟨hm, hmv⟩
    · exact ⟨vs, [], rfl, List.forall_mem_nil _⟩
    · obtain ⟨before, after, rfl, hafter⟩ := ih hm
      refine ⟨before, after ++ [v], by simp, ?_⟩
      exact List.forall_mem_append.mpr ⟨hafter, List.forall_mem_singleton.mpr hmv⟩

/-! ## Errors -/

/-- The types are the lowest of those in the list and the lowest of the others. -/
structure LowestTypes (vs : List Literal) (first second : LiteralType) : Prop where
  first_mem : ∃ v ∈ vs, v.type = first
  second_mem : ∃ v ∈ vs, v.type = second
  lt : first.rank < second.rank
  le : ∀ v ∈ vs, v.type = first ∨ second.rank ≤ v.type.rank

namespace LowestTypes

variable {vs ws : List Literal} {a b c d : LiteralType}

/-- Lists that cover each other have the same lowest types. -/
theorem congr (h : LowestTypes vs a b) (hvs : Covered vs ws) (hws : Covered ws vs) :
    LowestTypes ws a b := by
  refine ⟨hvs.exists_type h.first_mem, hvs.exists_type h.second_mem, h.lt, ?_⟩
  intro w hw
  obtain ⟨v, hv, htype⟩ := hws.exists_type ⟨w, hw, rfl⟩
  rw [← htype]
  exact h.le v hv

/-- The first of the lowest types is the lowest of all. -/
theorem rank_first_le (h : LowestTypes vs a b) {v : Literal} (hv : v ∈ vs) :
    a.rank ≤ v.type.rank := by
  rcases h.le v hv with htype | hle
  · rw [htype]
  · exact Nat.le_trans (Nat.le_of_lt h.lt) hle

/-- There is one lowest type only. -/
theorem first_eq (h : LowestTypes vs a b) (h' : LowestTypes vs c d) : a = c := by
  obtain ⟨v, hv, rfl⟩ := h.first_mem
  obtain ⟨w, hw, rfl⟩ := h'.first_mem
  exact rank_injective (Nat.le_antisymm (h.rank_first_le hw) (h'.rank_first_le hv))

/-- The second of the lowest types is the lowest of the others. -/
theorem rank_second_le (h : LowestTypes vs a b) (h' : LowestTypes vs a d) : b.rank ≤ d.rank := by
  obtain ⟨v, hv, rfl⟩ := h'.second_mem
  rcases h.le v hv with htype | hle
  · exact absurd (htype ▸ h'.lt) (Nat.lt_irrefl _)
  · exact hle

/-- A list has only one pair of lowest types. -/
theorem unique (h : LowestTypes vs a b) (h' : LowestTypes vs c d) : a = c ∧ b = d := by
  obtain rfl := h.first_eq h'
  exact ⟨rfl, rank_injective (Nat.le_antisymm (h.rank_second_le h') (h'.rank_second_le h))⟩

end LowestTypes

/-- In an ascending list the types ascend too, so the first literal of another type than the head
has the second lowest type. -/
theorem lowestTypes_of_commonType {vs : List Literal} (hvs : Ascending vs) {e : TypeError}
    (h : commonType vs = .error e) : ∃ a b, e = .mixedTypes a b ∧ LowestTypes vs a b := by
  cases vs with
  | nil => contradiction
  | cons v vs =>
    rw [commonType] at h
    split at h
    · rename_i w hw
      cases h
      -- up to the first literal of another type all have the type of the first one
      obtain ⟨hne, same, others, rfl, hsame⟩ := List.find?_eq_some_iff_append.mp hw
      simp only [LiteralType.isCompatibleWith, Bool.not_eq_true', decide_eq_false_iff_not,
        Bool.not_not, decide_eq_true_eq] at hne hsame
      obtain ⟨hv, hrest⟩ := List.pairwise_cons.mp hvs
      obtain ⟨-, hothers, -⟩ := List.pairwise_append.mp hrest
      have hvw : compare v w = .lt := hv w (List.mem_append_right _ List.mem_cons_self)
      have hle : v.type.rank ≤ w.type.rank := rank_le_of_isLE (by rw [hvw]; rfl)
      have hrank : v.type.rank ≠ w.type.rank := fun hrank => hne (rank_injective hrank)
      have hlater : ∀ u ∈ others, w.type.rank ≤ u.type.rank := by
        intro u hu
        have hwu := (List.pairwise_cons.mp hothers).1 u hu
        exact rank_le_of_isLE (by rw [hwu]; rfl)
      refine ⟨v.type, w.type, rfl, ?_, ?_, by omega, ?_⟩
      · exact ⟨v, List.mem_cons_self, rfl⟩
      · exact ⟨w, List.mem_cons_of_mem _ (List.mem_append_right _ List.mem_cons_self), rfl⟩
      · refine List.forall_mem_cons.mpr ⟨Or.inl rfl, List.forall_mem_append.mpr ⟨?_, ?_⟩⟩
        · exact fun u hu => Or.inl (hsame u hu).symm
        · exact List.forall_mem_cons.mpr ⟨Or.inr (Nat.le_refl _), fun u hu => Or.inr (hlater u hu)⟩
    · contradiction

/-- Building a set fails for want of a literal, or because of the two lowest of several types. -/
theorem ofList_error {vs : List Literal} {e : TypeError} (h : ofList vs = .error e) :
    vs = [] ∧ e = .emptySet ∨ ∃ a b, e = .mixedTypes a b ∧ LowestTypes vs a b := by
  rw [ofList] at h
  split at h
  · rename_i e' herror
    cases h
    obtain ⟨a, b, rfl, hlowest⟩ := lowestTypes_of_commonType (ascending_sort vs) herror
    exact Or.inr ⟨a, b, rfl, hlowest.congr (sort_covered vs) (covered_sort vs)⟩
  · rename_i hnone
    cases h
    left
    refine ⟨?_, rfl⟩
    rw [← sort_eq_nil_iff]
    cases hsort : sort vs with
    | nil => rfl
    | cons v ws =>
      rw [hsort, commonType] at hnone
      split at hnone <;> simp at hnone
  · contradiction

/-- Literals make up a set exactly if there are any and they all have one type. -/
theorem exists_ofList_iff_type {vs : List Literal} :
    (∃ s, ofList vs = .ok s) ↔ vs ≠ [] ∧ ∀ v ∈ vs, ∀ w ∈ vs, v.type = w.type := by
  cases vs with
  | nil => simp [ofList, sort, commonType]
  | cons v vs =>
    rw [exists_ofList_iff]
    constructor
    · intro h
      have hall : ∀ w ∈ v :: vs, w.type = v.type := List.forall_mem_cons.mpr ⟨rfl, h⟩
      exact ⟨List.cons_ne_nil v vs, fun u hu w hw => (hall u hu).trans (hall w hw).symm⟩
    · rintro ⟨-, h⟩ w hw
      exact h w (List.mem_cons_of_mem _ hw) v List.mem_cons_self

/-- The error of a list that makes up no set, told from the types in the list alone. -/
theorem ofList_eq_error_iff {vs : List Literal} {e : TypeError} :
    ofList vs = .error e ↔
      vs = [] ∧ e = .emptySet ∨ ∃ a b, e = .mixedTypes a b ∧ LowestTypes vs a b := by
  constructor
  · exact ofList_error
  · rintro (⟨rfl, rfl⟩ | ⟨a, b, rfl, hlowest⟩)
    · rfl
    · cases hlist : ofList vs with
      | ok s =>
        obtain ⟨v, hv, rfl⟩ := hlowest.first_mem
        obtain ⟨w, hw, rfl⟩ := hlowest.second_mem
        have htype := (exists_ofList_iff_type.mp ⟨s, hlist⟩).2 v hv w hw
        exact absurd (htype ▸ hlowest.lt) (Nat.lt_irrefl _)
      | error e =>
        rcases ofList_error hlist with ⟨rfl, -⟩ | ⟨c, d, rfl, hlowest'⟩
        · obtain ⟨v, hv, -⟩ := hlowest.first_mem
          contradiction
        · obtain ⟨rfl, rfl⟩ := hlowest.unique hlowest'
          rfl

/-! ## Sets -/

/-- A set contains the literals that equal one of those that it was built from. -/
theorem contains_ofList {vs : List Literal} {s : LiteralSet} (h : ofList vs = .ok s)
    (x : Literal) : s.contains x = true ↔ ∃ v ∈ vs, x.same v = true := by
  rw [contains, List.any_eq_true, (ofList_eq_ok_iff.mp h).2]
  constructor
  · rintro ⟨m, hm, hxm⟩
    exact ⟨m, mem_of_mem_sort hm, hxm⟩
  · rintro ⟨v, hv, hxv⟩
    obtain ⟨m, hm, hvm⟩ := covered_sort vs v hv
    exact ⟨m, hm, same_trans hxv hvm⟩

/-- Two lists make up equal sets exactly if they cover each other. -/
theorem same_ofList_iff {vs ws : List Literal} {s t : LiteralSet} (hs : ofList vs = .ok s)
    (ht : ofList ws = .ok t) : s.same t = true ↔ Covered vs ws ∧ Covered ws vs := by
  have hmembers : sameMembers s.members t.members = true ↔ Covered vs ws ∧ Covered ws vs := by
    rw [(ofList_eq_ok_iff.mp hs).2, (ofList_eq_ok_iff.mp ht).2,
      sameMembers_iff (ascending_sort vs) (ascending_sort ws)]
    constructor
    · rintro ⟨hleft, hright⟩
      exact ⟨((covered_sort vs).trans hleft).trans (sort_covered ws),
        ((covered_sort ws).trans hright).trans (sort_covered vs)⟩
    · rintro ⟨hleft, hright⟩
      exact ⟨((sort_covered vs).trans hleft).trans (covered_sort ws),
        ((sort_covered ws).trans hright).trans (covered_sort vs)⟩
  rw [same, Bool.and_eq_true, decide_eq_true_eq, hmembers, and_iff_right_iff_imp]
  rintro ⟨hleft, -⟩
  -- a member has the type of its set, and equal members have one type
  obtain ⟨v, hv⟩ := List.exists_mem_of_ne_nil _ (exists_ofList_iff_type.mp ⟨s, hs⟩).1
  obtain ⟨w, hw, htype⟩ := hleft.exists_type ⟨v, hv, rfl⟩
  rw [← type_of_ofList hs v hv, ← type_of_ofList ht w hw, htype]

/-- Lists that cover each other are answered alike. -/
theorem ofList_congr {vs ws : List Literal} (h : Covered vs ws) (h' : Covered ws vs) :
    (∀ e, ofList vs = .error e → ofList ws = .error e) ∧
      ∀ s, ofList vs = .ok s → ∃ t, ofList ws = .ok t ∧ s.same t = true := by
  constructor
  · intro e he
    rw [ofList_eq_error_iff] at he ⊢
    rcases he with ⟨rfl, rfl⟩ | ⟨a, b, rfl, hlowest⟩
    · left
      refine ⟨List.eq_nil_iff_forall_not_mem.mpr ?_, rfl⟩
      intro w hw
      obtain ⟨v, hv, -⟩ := h' w hw
      contradiction
    · exact Or.inr ⟨a, b, rfl, hlowest.congr h h'⟩
  · intro s hs
    cases ht : ofList ws with
    | ok t => exact ⟨t, rfl, (same_ofList_iff hs ht).mpr ⟨h, h'⟩⟩
    | error e =>
      obtain ⟨hne, htypes⟩ := exists_ofList_iff_type.mp ⟨s, hs⟩
      rcases ofList_error ht with ⟨rfl, -⟩ | ⟨a, b, -, hlowest⟩
      · obtain ⟨v, hv⟩ := List.exists_mem_of_ne_nil _ hne
        obtain ⟨w, hw, -⟩ := h v hv
        contradiction
      · have hlowest := hlowest.congr h' h
        obtain ⟨u, hu, rfl⟩ := hlowest.first_mem
        obtain ⟨v, hv, rfl⟩ := hlowest.second_mem
        exact absurd (htypes u hu v hv ▸ hlowest.lt) (Nat.lt_irrefl _)

/-- A list of literals makes up a set exactly if it is not empty and has one type. The members of
the set ascend, each of them is the last one written of the literals that equal it, and the set
contains what equals a literal of the list. Lists make up equal sets exactly if they cover each
other; a list with the same literals in another order or number is answered alike. An empty list
fails for that reason, and any other one that makes up no set with the two lowest types in it. -/
theorem ofList_canonical (vs : List Literal) :
    ((∃ s, ofList vs = .ok s) ↔ vs ≠ [] ∧ ∀ v ∈ vs, ∀ w ∈ vs, v.type = w.type) ∧
    (∀ s, ofList vs = .ok s →
      Ascending s.members ∧ (∀ x, s.contains x = true ↔ ∃ v ∈ vs, x.same v = true) ∧
        ∀ m ∈ s.members, LastWritten m vs) ∧
    (∀ ws s t, ofList vs = .ok s → ofList ws = .ok t →
      (s.same t = true ↔ Covered vs ws ∧ Covered ws vs)) ∧
    (∀ ws, vs ⊆ ws → ws ⊆ vs →
      (∀ e, ofList vs = .error e → ofList ws = .error e) ∧
        ∀ s, ofList vs = .ok s → ∃ t, ofList ws = .ok t ∧ s.same t = true) ∧
    ∀ e, ofList vs = .error e ↔
      vs = [] ∧ e = .emptySet ∨ ∃ a b, e = .mixedTypes a b ∧ LowestTypes vs a b := by
  refine ⟨exists_ofList_iff_type, ?_, ?_, ?_, ?_⟩
  · intro s hs
    refine ⟨(valid_of_ofList hs).ascending, contains_ofList hs, ?_⟩
    intro m hm
    rw [(ofList_eq_ok_iff.mp hs).2] at hm
    exact lastWritten_of_mem_sort hm
  · intro ws s t hs ht
    exact same_ofList_iff hs ht
  · intro ws hsubset hsupset
    exact ofList_congr (covered_of_subset hsubset) (covered_of_subset hsupset)
  · intro e
    exact ofList_eq_error_iff

/-- The set of `2.5, 1.0, 1.00` contains `1`; of `'x', 5, TRUE` the boolean and the integer are
named, which are written last. -/
theorem ofList_canonical_mixed :
    (∃ s, ofList [.decimal ⟨25, 1⟩, .decimal ⟨10, 1⟩, .decimal ⟨100, 2⟩] = .ok s ∧
      s.contains (.decimal ⟨1, 0⟩) = true) ∧
    ofList [.string "x", .integer 5, .boolean true] = .error (.mixedTypes .boolean .integer) := by
  constructor
  · have hcanonical := ofList_canonical [.decimal ⟨25, 1⟩, .decimal ⟨10, 1⟩, .decimal ⟨100, 2⟩]
    obtain ⟨s, hs⟩ := hcanonical.1.mpr (by decide)
    exact ⟨s, hs, ((hcanonical.2.1 s hs).2.1 _).mpr ⟨.decimal ⟨10, 1⟩, by simp, by decide⟩⟩
  · rw [(ofList_canonical _).2.2.2.2]
    refine Or.inr ⟨.boolean, .integer, rfl, ?_, ?_, by decide, ?_⟩
    · exact ⟨.boolean true, by simp, rfl⟩
    · exact ⟨.integer 5, by simp, rfl⟩
    · decide

end LiteralSet

end RowFilter
