import RowFilter.Predicate.Visitor
import RowFilter.Proofs.Predicate.Nodes

/-!
# What visitors see

A visitor that acts before and after each walk does what the events of the traversal say, one after
the other. So a visitor that only has hooks for columns and literals is told the parts of the
leaves, from left to right. One that notes when it enters and leaves the predicates notes a bracket
for each node, in the order of the nodes, and every bracket closes after those that it contains.
-/

set_option autoImplicit false

namespace RowFilter

namespace Visitor

variable {σ : Type} (descend : Predicate → Bool)

/-- Events in brackets are handled on entering, for the parts if they are walked, and on leaving. -/
theorem foldl_bracket (f : σ → Event → σ) (p : Predicate) (parts : List Event) (s : σ) :
    (Predicate.bracket descend p parts).foldl f s =
      f (if descend p then parts.foldl f (f s (.enter p)) else f s (.enter p)) (.leave p) := by
  rw [Predicate.bracket, List.foldl_append, List.foldl_append]
  cases descend p <;> rfl

/-- A visitor around the walk goes through the events of the traversal. -/
theorem visit_around (enter leave : Predicate → σ → σ) (onColumn : Column → σ → σ)
    (onLiteral : Literal → σ → σ) (p : Predicate) (s : σ) :
    (around descend enter leave onColumn onLiteral).visit p s =
      (p.events descend).foldl (Event.handle enter leave onColumn onLiteral) s := by
  induction p generalizing s with
  | member op c values =>
    rw [Predicate.events, foldl_bracket, List.foldl_cons, List.foldl_map]
    rfl
  | not p ih =>
    rw [Predicate.events, foldl_bracket, ← ih]
    rfl
  | chain op ps ih =>
    -- Each operand takes over the state that the one before it has left.
    rw [Predicate.events, foldl_bracket, Predicate.eventsAll_eq_flatMap, List.foldl_flatMap,
      ← List.foldl_ext _ _ _ fun s p hp => ih p hp s, ← visitAll_eq_foldl]
    rfl
  | _ =>
    rw [Predicate.events, foldl_bracket]
    rfl

end Visitor

/-! ## Hooks for columns and literals -/

/-- What a visitor with hooks for columns and literals does when it is told of an event. -/
def Event.tell {σ : Type} (onColumn : Column → σ → σ) (onLiteral : Literal → σ → σ) :
    σ → Event → σ :=
  Event.handle (fun _ s => s) (fun _ s => s) onColumn onLiteral

/-- The event if it is about a part of a leaf. -/
def Event.part? : Event → Option Event
  | .column c => some (.column c)
  | .literal v => some (.literal v)
  | _ => none

namespace Predicate

/-- The columns and literals of the leaves, from left to right. -/
def heard (p : Predicate) : List Event :=
  p.leaves.flatMap parts

/-- Of all events those about parts of leaves are what is heard. -/
theorem filterMap_part?_allEvents (p : Predicate) :
    p.allEvents.filterMap Event.part? = p.heard := by
  have hparts (q : Predicate) : q.parts.filterMap Event.part? = q.parts := by
    rw [parts, List.filterMap_append, List.filterMap_map, List.filterMap_map]
    exact congrArg₂ (· ++ ·) (congrFun List.filterMap_eq_map _) (congrFun List.filterMap_eq_map _)
  rw [filterMap_allEvents (fun _ => rfl) (fun _ => rfl), heard]
  exact List.flatMap_congr fun q _ => hparts q

/-- For a selection of parts it is enough to look at what is heard. -/
theorem filterMap_heard {α : Type} {f : Event → Option α} (henter : ∀ q, f (.enter q) = none)
    (hleave : ∀ q, f (.leave q) = none) (p : Predicate) :
    p.heard.filterMap f = p.allEvents.filterMap f := by
  rw [filterMap_allEvents henter hleave, heard, List.filterMap_flatMap]

/-- A visitor with hooks for columns and literals handles what is heard, in this order. -/
theorem visit_hooks {σ : Type} (onColumn : Column → σ → σ) (onLiteral : Literal → σ → σ)
    (p : Predicate) (s : σ) :
    Visitor.visit { onColumn := onColumn, onLiteral := onLiteral } p s =
      p.heard.foldl (Event.tell onColumn onLiteral) s := by
  calc Visitor.visit { onColumn := onColumn, onLiteral := onLiteral } p s
      = p.allEvents.foldl (Event.tell onColumn onLiteral) s :=
        Visitor.visit_around (fun _ => true) (fun _ s => s) (fun _ s => s) onColumn onLiteral p s
    _ = (p.allEvents.filterMap Event.part?).foldl (Event.tell onColumn onLiteral) s := by
        rw [List.foldl_filterMap]
        refine List.foldl_ext _ _ _ fun s e _ => ?_
        cases e <;> rfl
    _ = p.heard.foldl (Event.tell onColumn onLiteral) s := by
        rw [filterMap_part?_allEvents]

end Predicate

/-! ## Brackets -/

/-- The visitor that notes when it enters and when it leaves a predicate. -/
def Visitor.tracer : Visitor (List Event) where
  onPredicate p walk es := walk (es ++ [.enter p]) ++ [.leave p]

/-- The event if it is about entering or leaving. -/
def Event.bracket? : Event → Option Event
  | .enter p => some (.enter p)
  | .leave p => some (.leave p)
  | _ => none

/-- The predicate that is entered. -/
def Event.entered? : Event → Option Predicate
  | .enter p => some p
  | _ => none

/-- The predicate that is left. -/
def Event.left? : Event → Option Predicate
  | .leave p => some p
  | _ => none

/-- The events enter and leave each of the predicates, in the order of entering. Whatever is entered
inside a predicate is left before the predicate is. -/
inductive Bracketed : List Predicate → List Event → Prop where
  | nil : Bracketed [] []
  | pair {p : Predicate} {below next : List Predicate} {inside after : List Event}
    (hinside : Bracketed below inside) (hafter : Bracketed next after) :
    Bracketed (p :: (below ++ next)) (.enter p :: (inside ++ .leave p :: after))

namespace Bracketed

variable {ps qs : List Predicate} {es fs : List Event}

/-- Bracketed events in a row are bracketed. -/
theorem append (h : Bracketed ps es) (h' : Bracketed qs fs) : Bracketed (ps ++ qs) (es ++ fs) := by
  induction h with
  | nil => exact h'
  | pair hinside _ _ ih =>
    rw [List.cons_append, List.append_assoc, List.cons_append, List.append_assoc, List.cons_append]
    exact pair hinside ih

/-- Bracketed events between entering and leaving a predicate are bracketed. -/
theorem around (h : Bracketed ps es) (p : Predicate) :
    Bracketed (p :: ps) (.enter p :: (es ++ [.leave p])) := by
  have hpair := pair (p := p) h nil
  rwa [List.append_nil] at hpair

/-- The bracketed events of predicates in a row are bracketed. -/
theorem flatMap {f : Predicate → List Predicate} {g : Predicate → List Event}
    (h : ∀ p ∈ ps, Bracketed (f p) (g p)) : Bracketed (ps.flatMap f) (ps.flatMap g) := by
  induction ps with
  | nil => exact nil
  | cons p ps ih =>
    obtain ⟨hp, hps⟩ := List.forall_mem_cons.mp h
    rw [List.flatMap_cons, List.flatMap_cons]
    exact hp.append (ih hps)

/-- The predicates that are entered are those that the brackets are about. -/
theorem entered (h : Bracketed ps es) : es.filterMap Event.entered? = ps := by
  induction h with
  | nil => rfl
  | @pair p below next inside after _ _ ihinside ihafter =>
    calc (Event.enter p :: (inside ++ .leave p :: after)).filterMap Event.entered?
        = p :: (inside.filterMap Event.entered? ++ after.filterMap Event.entered?) := by
          simp [Event.entered?, List.filterMap_cons]
      _ = p :: (below ++ next) := by rw [ihinside, ihafter]

/-- Each of the predicates is left once. -/
theorem left (h : Bracketed ps es) : (es.filterMap Event.left?).Perm ps := by
  induction h with
  | nil => exact List.Perm.nil
  | @pair p below next inside after _ _ ihinside ihafter =>
    have hleft : (Event.enter p :: (inside ++ .leave p :: after)).filterMap Event.left? =
        inside.filterMap Event.left? ++ p :: after.filterMap Event.left? := by
      simp [Event.left?, List.filterMap_cons]
    rw [hleft]
    exact List.perm_middle.trans ((ihinside.append ihafter).cons p)

end Bracketed

namespace Predicate

/-- The traversal enters and leaves the nodes of a predicate in brackets. -/
theorem bracketed_allEvents (p : Predicate) :
    Bracketed p.nodes (p.allEvents.filterMap Event.bracket?) := by
  have haround (q : Predicate) (es : List Event) :
      (.enter q :: (es ++ [.leave q])).filterMap Event.bracket? =
        .enter q :: (es.filterMap Event.bracket? ++ [.leave q]) := by
    simp [Event.bracket?]
  have hleaf {q : Predicate} (hq : q.isLeaf = true) :
      Bracketed q.nodes (q.allEvents.filterMap Event.bracket?) := by
    have hparts : q.parts.filterMap Event.bracket? = [] := by
      simp [parts, Event.bracket?]
    rw [nodes_of_isLeaf hq, allEvents_of_isLeaf hq, haround, hparts]
    exact Bracketed.nil.around q
  induction p with
  | not p ih =>
    rw [allEvents_not, haround]
    exact ih.around p.not
  | chain op ps ih =>
    rw [allEvents_chain, haround, List.filterMap_flatMap, nodes, nodesAll_eq_flatMap]
    exact (Bracketed.flatMap ih).around (chain op ps)
  | _ => exact hleaf rfl

/-- The visitor that notes entering and leaving notes the brackets of the traversal. -/
theorem visit_tracer (p : Predicate) (es : List Event) :
    Visitor.tracer.visit p es = es ++ p.allEvents.filterMap Event.bracket? := by
  have hnote (fs : List Event) (es : List Event) :
      fs.foldl (Event.handle (fun p es => es ++ [.enter p]) (fun p es => es ++ [.leave p])
        (fun _ es => es) (fun _ es => es)) es = es ++ fs.filterMap Event.bracket? := by
    induction fs generalizing es with
    | nil => exact (List.append_nil es).symm
    | cons e fs ih =>
      rw [List.foldl_cons, ih]
      cases e <;> simp [Event.handle, Event.bracket?, List.filterMap_cons]
  have htracer : Visitor.tracer = .around (fun _ => true) (fun p es => es ++ [.enter p])
      (fun p es => es ++ [.leave p]) (fun _ es => es) (fun _ es => es) := rfl
  rw [htracer, Visitor.visit_around, hnote]
  rfl

/-- What the tracer notes enters and leaves each node once, in the order of the nodes. -/
theorem bracketed_visit_tracer (p : Predicate) :
    Bracketed p.nodes (Visitor.tracer.visit p []) := by
  rw [visit_tracer]
  exact p.bracketed_allEvents

end Predicate

end RowFilter
