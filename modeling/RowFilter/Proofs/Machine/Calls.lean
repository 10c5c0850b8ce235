import RowFilter.Proofs.Machine.Expression
import RowFilter.Proofs.Session.Outcome

/-!
# Calls of the machine

A machine may be called again and again, to read one expression or to read up to the end of the
text, whether the calls before have failed or not. Between calls it is at depth zero. Each call
comes to an end; it answers and moves on as the reading of a session does that stands before the
same tokens, and it never ends before the position where it began. From one call this is carried to
every run of calls.
-/

set_option autoImplicit false

namespace RowFilter

namespace Session

/-- The reading that a call asks for. -/
def read (s : Session) : Machine.Call → Reading
  | .expression => s.readExpression
  | .whole => s.readAll

/-- Reading after reading, each from where the one before it ended. -/
def readings (s : Session) : List Machine.Call → List Reading
  | [] => []
  | c :: cs => s.read c :: (s.read c).session.readings cs

end Session

namespace Machine

/-! ## One call -/

section Call

variable {m : Machine} {ks : List Kind}

/-- If all tokens are valid, a call for the whole text performs the closed outcome of the parser. -/
theorem performs_whole (h : m.stream.firstInvalid? = none) (ks : List Kind) :
    m.Performs 0 ks m.whole ((Parser.expression m.maxDepth).run ks).closed := by
  rw [whole, h]
  apply (performs_expression ks).bind
  intro p _
  apply Performs.of_ne_eof
  intro hne
  apply performs_kind.step
  cases hrest : ((Parser.expression m.maxDepth).run ks).rest with
  | nil => exact Performs.pure p
  | cons k more =>
    have hk : k ≠ .eof := hne k (hrest ▸ List.mem_cons_self)
    rw [List.headD_cons, if_pos hk]
    exact performs_unexpected .endOfText

variable (m)

/-- The session that stands before the tokens from a position on. -/
def session (position : Nat) : Session :=
  ⟨⟨m.maxDepth⟩, m.stream, m.stream.tokens.drop position⟩

/-- The machine has only been where it may be and is at depth zero. -/
def Rests (s : State) : Prop :=
  m.Stands s 0 (m.kindsFrom s.place.position)

/-- The machine has gone on from a state as a reading does. -/
structure Goes (s : State) (r : Reading) (after : State) : Prop where
  rests : m.Rests after
  session_eq : r.session = m.session after.place.position
  log_eq : after.log = s.log ++ r.log
  position_le : s.place.position ≤ after.place.position

variable {m}

/-- The index of the session at a position is the position. -/
theorem index_session {position : Nat} (h : position < m.tokens.length) :
    (m.session position).index = position := by
  rw [length_tokens] at h
  show m.stream.tokens.length - (m.stream.tokens.drop position).length = position
  rw [List.length_drop]
  omega

/-- An action that performs an outcome goes on as the reading of this outcome. -/
theorem Performs.goes {action : Action Predicate} {o : Outcome Predicate} {s : State}
    (hs : m.Rests s) (h : m.Performs 0 (m.kindsFrom s.place.position) action o)
    (hsuffix : o.rest <:+ m.kindsFrom s.place.position) :
    ∃ after, action.run.run s = some (((m.session s.place.position).readingOf o).result, after) ∧
      m.Goes s ((m.session s.place.position).readingOf o) after := by
  obtain ⟨after, hrun, hafter, hlog⟩ := h s hs
  have hposition := hafter.position_eq
  have hbefore := hs.position_eq
  have hle := hsuffix.length_le
  -- the machine has moved past exactly those tokens that the outcome does not leave
  have hsession : (m.session s.place.position).leave o.rest.length =
      m.session after.place.position := by
    have hleft : s.place.position +
        ((m.stream.tokens.drop s.place.position).length - o.rest.length) =
          after.place.position := by
      rw [length_kindsFrom] at hbefore hle
      rw [List.length_drop]
      omega
    simp only [Session.leave, session, List.drop_drop, hleft]
  refine ⟨after, ?_, ?_, hsession, hlog, by omega⟩
  · rw [hrun, Session.readingOf, hsession]
    rfl
  · rw [Rests, hafter.kinds_eq]
    exact hafter

/-- Every call ends, with the result of the reading from where the machine stands, and the machine
goes on as that reading does. -/
theorem run_action {s : State} (hs : m.Rests s) (c : Call) :
    ∃ after, (m.action c).run.run s = some (((m.session s.place.position).read c).result, after) ∧
      m.Goes s ((m.session s.place.position).read c) after := by
  have hsuffix := (Parser.expression m.maxDepth).rest_suffix (m.kindsFrom s.place.position)
  cases c with
  | expression => exact (performs_expression _).goes hs hsuffix
  | whole =>
    cases hinvalid : m.stream.firstInvalid? with
    | some invalid =>
      obtain ⟨error, position⟩ := invalid
      have hread : (m.session s.place.position).read .whole =
          ⟨.error (.invalidToken error position), [], m.session s.place.position⟩ := by
        simp only [Session.read, Session.readAll, session, hinvalid]
      rw [hread]
      refine ⟨s, ?_, hs, rfl, (List.append_nil _).symm, Nat.le_refl _⟩
      simp only [action, whole, hinvalid]
      rfl
    | none =>
      have hread : (m.session s.place.position).read .whole = _ := Session.readAll_eq hinvalid
      rw [hread]
      rw [← Outcome.rest_closed] at hsuffix
      exact (performs_whole hinvalid _).goes hs hsuffix

/-- One call ends, with the answer of the reading that it asks for. -/
theorem run_call {s : State} (hs : m.Rests s) (c : Call) :
    ∃ after, (m.call c).run s =
        some (⟨((m.session s.place.position).read c).result, after.place⟩, after) ∧
      m.Goes s ((m.session s.place.position).read c) after := by
  obtain ⟨after, hrun, hgoes⟩ := run_action hs c
  refine ⟨after, ?_, hgoes⟩
  rw [call, StateT.run_bind, hrun]
  rfl

end Call

/-! ## Runs of calls -/

section Calls

variable (m : Machine)

/-- The machine has gone on from a state as a run of readings does, one call for each of them. -/
structure GoesAll (s : State) (rs : List Reading) (returns : List Return) (last : State) :
    Prop where
  rests : m.Rests last
  depth_eq_zero : ∀ r ∈ returns, r.place.depth = 0
  forward : (s.place.position :: returns.map fun r => r.place.position).IsChain (· ≤ ·)
  answers : returns.map (fun r => (r.result, r.place.position)) =
    rs.map fun r => (r.result, r.session.index)
  log_eq : last.log = s.log ++ rs.flatMap Reading.log

variable {m}

/-- One call and then the others make up a run of calls. -/
theorem GoesAll.cons {s mid last : State} {r : Reading} {rs : List Reading}
    {returns : List Return} (h : m.Goes s r mid) (hall : m.GoesAll mid rs returns last) :
    m.GoesAll s (r :: rs) (⟨r.result, mid.place⟩ :: returns) last where
  rests := hall.rests
  depth_eq_zero := List.forall_mem_cons.mpr ⟨h.rests.depth_eq, hall.depth_eq_zero⟩
  forward := List.isChain_cons_cons.mpr ⟨h.position_le, hall.forward⟩
  answers := by
    have hindex : r.session.index = mid.place.position := by
      rw [h.session_eq, index_session h.rests.within_place.1]
    rw [List.map_cons, List.map_cons, hall.answers, hindex]
  log_eq := by
    rw [hall.log_eq, h.log_eq, List.flatMap_cons, List.append_assoc]

/-- A run of calls ends. The induction is on the calls, and each begins where the machine rests
after the one before it. -/
theorem run_calls {s : State} (hs : m.Rests s) (cs : List Call) :
    ∃ returns last, (m.calls cs).run s = some (returns, last) ∧
      m.GoesAll s ((m.session s.place.position).readings cs) returns last := by
  induction cs generalizing s with
  | nil =>
    exact ⟨[], s, rfl, hs, by simp, List.IsChain.singleton _, rfl, (List.append_nil _).symm⟩
  | cons c cs ih =>
    obtain ⟨mid, hcall, hgoes⟩ := run_call hs c
    obtain ⟨returns, last, hrun, hall⟩ := ih hgoes.rests
    rw [← hgoes.session_eq] at hall
    refine ⟨_, last, ?_, GoesAll.cons hgoes hall⟩
    rw [calls] at hrun ⊢
    rw [List.mapM_cons, StateT.run_bind, hcall]
    show (do let returns ← cs.mapM m.call; return _ :: returns : Run _).run mid = _
    rw [StateT.run_bind, hrun]
    rfl

end Calls

/-- Before the first call the machine rests. -/
theorem rests_start (m : Machine) : m.Rests State.start where
  within := by
    refine List.forall_mem_singleton.mpr ⟨?_, Nat.zero_le _⟩
    rw [length_tokens]
    exact Nat.succ_pos _
  depth_eq := rfl
  kinds_eq := rfl

/-- A machine may be called at any time. Whatever the text, the bound on nesting and the calls, and
whether calls fail or not, all calls come to an end, and no loop takes more turns than there are
tokens. Every place at which the machine has been in the meantime is at a token, the end token
included, and not deeper than the bound; between calls the machine is at depth zero; no call ends
before the position where it began. The answers, the positions after the calls and the log are those
of a session. -/
theorem calls_sound (config : Config) (text : String) (extra : Nat) (cs : List Call) :
    ∃ returns last, ((ofText config text extra).calls cs).run State.start = some (returns, last) ∧
      (∀ place ∈ last.places, place.position < (ofText config text extra).tokens.length ∧
        place.depth ≤ config.maxDepth) ∧
      (∀ r ∈ returns, r.place.depth = 0) ∧
      (0 :: returns.map fun r => r.place.position).IsChain (· ≤ ·) ∧
      returns.map (fun r => (r.result, r.place.position)) =
        ((Session.start config text).readings cs).map (fun r => (r.result, r.session.index)) ∧
      last.log = ((Session.start config text).readings cs).flatMap Reading.log := by
  obtain ⟨returns, last, hrun, hall⟩ := run_calls (ofText config text extra).rests_start cs
  exact ⟨returns, last, hrun, hall.rests.within, hall.depth_eq_zero, hall.forward, hall.answers,
    hall.log_eq⟩

end Machine

end RowFilter
