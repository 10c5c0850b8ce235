import RowFilter.Literal.Set
import RowFilter.Proofs.Literal.Order

/-!
# Valid sets of literals

A valid set has a member, its members stand in strictly ascending order, so that none is written
twice, and all of them have the type that the set records. The constructor builds only valid sets,
every valid set is built from its own members, and a list of literals makes up a set exactly if it
has a member and one type.
-/

set_option autoImplicit false

namespace RowFilter

namespace LiteralSet

/-- Each literal is less than all that follow it. -/
def Ascending (vs : List Literal) : Prop :=
  vs.Pairwise fun v w => compare v w = .lt

/-- The invariant of sets. -/
structure Valid (s : LiteralSet) : Prop where
  nonempty : s.members ≠ []
  ascending : Ascending s.members
  distinct : s.members.Pairwise fun v w => v.same w = false
  typed : ∀ v ∈ s.members, v.type = s.type

/-- In an ascending list no two literals are the same. -/
theorem Ascending.distinct {vs : List Literal} (h : Ascending vs) :
    vs.Pairwise fun v w => v.same w = false := by
  refine List.Pairwise.imp ?_ h
  intro v w hlt
  rw [Literal.same, hlt]
  rfl

/-! ## Insertion -/

/-- What is in a list after inserting a literal is that literal or was there before. -/
theorem mem_of_mem_insert {u v : Literal} {ws : List Literal} (h : u ∈ insert v ws) :
    u = v ∨ u ∈ ws := by
  induction ws with
  | nil => exact Or.inl (List.mem_singleton.mp h)
  | cons w ws ih =>
    unfold insert at h
    split at h
    · exact List.mem_cons.mp h
    · rcases List.mem_cons.mp h with rfl | hu
      · exact Or.inl rfl
      · exact Or.inr (List.mem_cons_of_mem _ hu)
    · rcases List.mem_cons.mp h with rfl | hu
      · exact Or.inr List.mem_cons_self
      · exact (ih hu).imp_right (List.mem_cons_of_mem _)

/-- A literal is in the list into which it is inserted. -/
theorem self_mem_insert (v : Literal) (ws : List Literal) : v ∈ insert v ws := by
  induction ws with
  | nil => exact List.mem_singleton_self v
  | cons w ws ih =>
    unfold insert
    split
    · exact List.mem_cons_self
    · exact List.mem_cons_self
    · exact List.mem_cons_of_mem _ ih

/-- A literal stays in the list unless the inserted one takes its place. -/
theorem mem_insert_of_mem {u : Literal} (v : Literal) {ws : List Literal} (h : u ∈ ws) :
    u ∈ insert v ws ∨ compare u v = .eq := by
  induction ws with
  | nil => contradiction
  | cons w ws ih =>
    unfold insert
    split
    · exact Or.inl (List.mem_cons_of_mem _ h)
    · rename_i heq
      rcases List.mem_cons.mp h with rfl | hu
      · exact Or.inr (Std.OrientedCmp.eq_symm heq)
      · exact Or.inl (List.mem_cons_of_mem _ hu)
    · rcases List.mem_cons.mp h with rfl | hu
      · exact Or.inl List.mem_cons_self
      · exact (ih hu).imp_left (List.mem_cons_of_mem _)

/-- Inserting keeps a list ascending. -/
theorem ascending_insert (v : Literal) {ws : List Literal} (h : Ascending ws) :
    Ascending (insert v ws) := by
  induction ws with
  | nil => exact List.pairwise_singleton _ v
  | cons w ws ih =>
    obtain ⟨hw, hws⟩ := List.pairwise_cons.mp h
    unfold insert
    split
    · rename_i hlt
      refine List.pairwise_cons.mpr ⟨?_, h⟩
      intro u hu
      rcases List.mem_cons.mp hu with rfl | hu
      · exact hlt
      · exact Std.TransCmp.lt_trans hlt (hw u hu)
    · rename_i heq
      refine List.pairwise_cons.mpr ⟨?_, hws⟩
      intro u hu
      exact Std.TransCmp.lt_of_eq_of_lt heq (hw u hu)
    · rename_i hgt
      refine List.pairwise_cons.mpr ⟨?_, ih hws⟩
      intro u hu
      rcases mem_of_mem_insert hu with rfl | hu
      · exact Std.OrientedCmp.lt_of_gt hgt
      · exact hw u hu

/-- A literal above all others is put at the end. -/
theorem insert_of_greatest {v : Literal} {ws : List Literal} (h : ∀ w ∈ ws, compare w v = .lt) :
    insert v ws = ws ++ [v] := by
  induction ws with
  | nil => rfl
  | cons w ws ih =>
    have hgt : compare v w = .gt := Std.OrientedCmp.gt_of_lt (h w List.mem_cons_self)
    rw [insert, hgt]
    show w :: insert v ws = _
    rw [ih fun u hu => h u (List.mem_cons_of_mem _ hu)]
    rfl

/-! ## Sorting -/

/-- What every single insertion keeps is kept by inserting a list of literals. -/
theorem foldl_insert_invariant {P : List Literal → Prop} {vs : List Literal}
    (hstep : ∀ v ∈ vs, ∀ ws, P ws → P (insert v ws)) {ws : List Literal} (hws : P ws) :
    P (vs.foldl (fun ws v => insert v ws) ws) :=
  List.foldlRecOn vs _ hws fun ws hws v hv => hstep v hv ws hws

/-- Sorting makes a list ascending. -/
theorem ascending_sort (vs : List Literal) : Ascending (sort vs) :=
  foldl_insert_invariant (fun v _ _ h => ascending_insert v h) List.Pairwise.nil

/-- Sorting adds no literal. -/
theorem mem_of_mem_sort {vs : List Literal} {u : Literal} (h : u ∈ sort vs) : u ∈ vs := by
  have hall : ∀ u ∈ sort vs, u ∈ vs :=
    foldl_insert_invariant (P := fun ws => ∀ u ∈ ws, u ∈ vs)
      (fun v hv ws hws u hu => by
        rcases mem_of_mem_insert hu with rfl | hu
        · exact hv
        · exact hws u hu)
      (by simp)
  exact hall u h

/-- Sorting keeps of every literal one that is equal to it. -/
theorem exists_mem_sort {vs : List Literal} {v : Literal} (h : v ∈ vs) :
    ∃ w ∈ sort vs, compare v w = .eq := by
  have hkeep (us : List Literal) {ws : List Literal} (hws : ∃ w ∈ ws, compare v w = .eq) :
      ∃ w ∈ us.foldl (fun ws u => insert u ws) ws, compare v w = .eq :=
    foldl_insert_invariant (P := fun ws => ∃ w ∈ ws, compare v w = .eq)
      (fun u _ ws hws => by
        obtain ⟨w, hw, heq⟩ := hws
        rcases mem_insert_of_mem u hw with hstay | hgone
        · exact ⟨w, hstay, heq⟩
        · exact ⟨u, self_mem_insert u ws, Std.TransCmp.eq_trans heq hgone⟩)
      hws
  obtain ⟨left, right, rfl⟩ := List.append_of_mem h
  rw [sort, List.foldl_append, List.foldl_cons]
  exact hkeep right ⟨v, self_mem_insert v _, Std.ReflCmp.compare_self⟩

/-- An ascending list is sorted already. -/
theorem sort_of_ascending {vs : List Literal} (h : Ascending vs) : sort vs = vs := by
  have hfold (vs : List Literal) : ∀ ws, Ascending (ws ++ vs) →
      vs.foldl (fun ws v => insert v ws) ws = ws ++ vs := by
    induction vs with
    | nil =>
      intro ws _
      simp
    | cons v vs ih =>
      intro ws hws
      have hgreatest : ∀ w ∈ ws, compare w v = .lt := fun w hw =>
        (List.pairwise_append.mp hws).2.2 w hw v List.mem_cons_self
      rw [List.foldl_cons, insert_of_greatest hgreatest, ih]
      · simp
      · simpa using hws
  exact hfold vs [] h

/-- Sorting leaves nothing only if there was nothing. -/
theorem sort_eq_nil_iff {vs : List Literal} : sort vs = [] ↔ vs = [] := by
  constructor
  · intro h
    rw [List.eq_nil_iff_forall_not_mem]
    intro v hv
    obtain ⟨w, hw, -⟩ := exists_mem_sort hv
    rw [h] at hw
    contradiction
  · rintro rfl
    rfl

/-! ## Construction -/

/-- Literals have a common type if there are any and all of them have that type. -/
theorem commonType_eq_some_iff {vs : List Literal} {t : LiteralType} :
    commonType vs = .ok (some t) ↔ vs ≠ [] ∧ ∀ v ∈ vs, v.type = t := by
  cases vs with
  | nil => simp [commonType]
  | cons v vs =>
    cases hother : vs.find? fun w => !v.type.isCompatibleWith w.type with
    | some w =>
      have hne : v.type ≠ w.type := by
        simpa [LiteralType.isCompatibleWith] using List.find?_some hother
      have hw := List.mem_of_find?_eq_some hother
      simp only [commonType, hother, reduceCtorEq, false_iff, not_and]
      intro _ htyped
      have hv := htyped v List.mem_cons_self
      exact hne (hv.trans (htyped w (List.mem_cons_of_mem _ hw)).symm)
    | none =>
      have hsame : ∀ w ∈ vs, v.type = w.type := by
        simpa [LiteralType.isCompatibleWith] using hother
      simp only [commonType, hother, Except.ok.injEq, Option.some.injEq]
      constructor
      · rintro rfl
        refine ⟨by simp, ?_⟩
        intro w hw
        rcases List.mem_cons.mp hw with rfl | hw
        · rfl
        · exact (hsame w hw).symm
      · rintro ⟨-, htyped⟩
        exact htyped v List.mem_cons_self

/-- A set consists of the sorted literals, and it is made exactly if these have one type. -/
theorem ofList_eq_ok_iff {vs : List Literal} {s : LiteralSet} :
    ofList vs = .ok s ↔ commonType (sort vs) = .ok (some s.type) ∧ s.members = sort vs := by
  obtain ⟨members, type⟩ := s
  unfold ofList
  split
  · rename_i e he
    simp [he]
  · rename_i hnone
    simp [hnone]
  · rename_i t ht
    simp [ht, and_comm, eq_comm]

/-- What the constructor builds has no other members. -/
theorem members_subset_of_ofList {vs : List Literal} {s : LiteralSet} (h : ofList vs = .ok s) :
    s.members ⊆ vs := by
  rw [(ofList_eq_ok_iff.mp h).2]
  exact fun u hu => mem_of_mem_sort hu

/-- What the constructor builds is valid. -/
theorem valid_of_ofList {vs : List Literal} {s : LiteralSet} (h : ofList vs = .ok s) : s.Valid := by
  obtain ⟨htype, hmembers⟩ := ofList_eq_ok_iff.mp h
  obtain ⟨hne, htyped⟩ := commonType_eq_some_iff.mp htype
  have hascending := ascending_sort vs
  rw [← hmembers] at hne htyped hascending
  exact ⟨hne, hascending, hascending.distinct, htyped⟩

/-- A valid set is built from its own members. -/
theorem ofList_members {s : LiteralSet} (h : s.Valid) : ofList s.members = .ok s := by
  have hsort := sort_of_ascending h.ascending
  rw [ofList_eq_ok_iff, hsort, commonType_eq_some_iff]
  exact ⟨⟨h.nonempty, h.typed⟩, rfl⟩

/-- All literals that a set is made of have its type. -/
theorem type_of_ofList {vs : List Literal} {s : LiteralSet} (h : ofList vs = .ok s) :
    ∀ v ∈ vs, v.type = s.type := by
  obtain ⟨htype, -⟩ := ofList_eq_ok_iff.mp h
  have htyped := (commonType_eq_some_iff.mp htype).2
  intro v hv
  obtain ⟨u, hu, heq⟩ := exists_mem_sort hv
  exact (Literal.type_eq_of_compare heq).trans (htyped u hu)

/-- Literals make up a set exactly if there are any and they have one type. -/
theorem exists_ofList_iff {v : Literal} {vs : List Literal} :
    (∃ s, ofList (v :: vs) = .ok s) ↔ ∀ w ∈ vs, w.type = v.type := by
  constructor
  · rintro ⟨s, hs⟩
    have hall := type_of_ofList hs
    intro w hw
    exact (hall w (List.mem_cons_of_mem _ hw)).trans (hall v List.mem_cons_self).symm
  · intro h
    refine ⟨⟨sort (v :: vs), v.type⟩, ofList_eq_ok_iff.mpr ⟨?_, rfl⟩⟩
    rw [commonType_eq_some_iff, Ne, sort_eq_nil_iff]
    refine ⟨by simp, ?_⟩
    intro w hw
    rcases List.mem_cons.mp (mem_of_mem_sort hw) with rfl | hw
    · rfl
    · exact h w hw

end LiteralSet

end RowFilter
