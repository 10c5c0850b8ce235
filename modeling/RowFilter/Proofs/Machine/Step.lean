import RowFilter.Proofs.Machine.Basic

/-!
# What a machine does, step by step

An action performs an outcome if, begun before certain kinds and at a certain depth, it comes to an
end, answers with the result of the outcome, leaves what the outcome leaves, is at the same depth
again, and has been at no place that is beyond the tokens or too deep. This is said of success and
of failure alike, so it holds for a sequence of actions once it holds for each of them.
-/

set_option autoImplicit false

namespace RowFilter

/-- Changing a value is going on with it and reading nothing. -/
theorem Outcome.map_eq_andThen {α β : Type} (f : α → β) (o : Outcome α) :
    o.map f = o.andThen fun a rest => ⟨.ok (f a), rest, []⟩ := by
  obtain ⟨result, rest, log⟩ := o
  cases result with
  | ok a => rw [andThen_ok, logAfter, List.append_nil]; rfl
  | error fault => rfl

namespace Machine

variable (m : Machine)

/-- The place is at a token and not too deep. -/
def Within (place : Place) : Prop :=
  place.position < m.tokens.length ∧ place.depth ≤ m.maxDepth

/-- The kinds from a position on, without the end. -/
def kindsFrom (position : Nat) : List Kind :=
  (m.stream.tokens.drop position).map Token.kind

/-- The token at a position; from the end of the text on, the end token. -/
def tokenAt (position : Nat) : Token :=
  (m.stream.tokens.drop position).headD (Token.atEnd m.stream.stop)

/-- The machine has only been where it may be; it is at a depth, and before certain kinds. -/
structure Stands (s : State) (depth : Nat) (ks : List Kind) : Prop where
  within : ∀ place ∈ s.places, m.Within place
  depth_eq : s.place.depth = depth
  kinds_eq : m.kindsFrom s.place.position = ks

/-- The error that a fault is at a place. -/
def errorAt (place : Place) (fault : Fault) : ParseError :=
  ParseError.ofFault m.maxDepth (m.tokenAt place.position) fault

/-- Begun at the depth and before the kinds, the action comes to an end, and does so as the outcome
says. -/
def Performs {α : Type} (depth : Nat) (ks : List Kind) (action : Action α) (o : Outcome α) : Prop :=
  ∀ s, m.Stands s depth ks → ∃ after,
    action.run.run s = some (o.result.mapError (m.errorAt after.place), after) ∧
      m.Stands after depth o.rest ∧ after.log = s.log ++ o.log

variable {m} {α β : Type} {depth : Nat} {ks ks' : List Kind}

/-! ## Places -/

/-- The end token is one more than the tokens of the stream. -/
theorem length_tokens : m.tokens.length = m.stream.tokens.length + 1 := by
  rw [tokens, TokenStream.withEnd, List.length_append, List.length_singleton]

/-- At a position within the tokens there is a token. -/
theorem getElem?_tokens {position : Nat} (h : position < m.tokens.length) :
    m.tokens[position]? = some (m.tokenAt position) := by
  rw [length_tokens] at h
  rw [tokens, TokenStream.withEnd, tokenAt, List.headD_eq_head?_getD, List.head?_drop]
  rcases Nat.lt_or_eq_of_le (Nat.le_of_lt_succ h) with hlt | rfl
  · rw [List.getElem?_append_left hlt, List.getElem?_eq_getElem hlt]
    rfl
  · rw [List.getElem?_append_right (Nat.le_refl _), List.getElem?_eq_none (Nat.le_refl _)]
    simp

/-- The token at a position has the first of the kinds from there on, or is the end. -/
theorem kind_tokenAt (position : Nat) :
    (m.tokenAt position).kind = (m.kindsFrom position).headD .eof := by
  rw [tokenAt, kindsFrom]
  cases m.stream.tokens.drop position <;> rfl

/-- Positions add up. -/
theorem kindsFrom_add (position offset : Nat) :
    m.kindsFrom (position + offset) = (m.kindsFrom position).drop offset := by
  rw [kindsFrom, kindsFrom, ← List.drop_drop, List.map_drop]

/-- From a position on there are the kinds that are not passed yet. -/
theorem length_kindsFrom (position : Nat) :
    (m.kindsFrom position).length = m.stream.tokens.length - position := by
  rw [kindsFrom, List.length_map, List.length_drop]

/-- The end is not among the kinds from a position on. -/
theorem mem_kindsFrom_ne_eof {position : Nat} {k : Kind} (h : k ∈ m.kindsFrom position) :
    k ≠ .eof := by
  obtain ⟨t, ht, rfl⟩ := List.mem_map.mp h
  exact m.noEnd t (List.mem_of_mem_drop ht)

namespace Stands

variable {s : State}

/-- The machine is where it may be. -/
theorem within_place (h : m.Stands s depth ks) : m.Within s.place :=
  h.within _ List.mem_cons_self

/-- The position is the number of tokens that are not left. -/
theorem position_eq (h : m.Stands s depth ks) :
    s.place.position + ks.length = m.stream.tokens.length := by
  have hwithin := h.within_place.1
  rw [length_tokens] at hwithin
  rw [← h.kinds_eq, length_kindsFrom]
  omega

/-- There is a token where the machine stands. -/
theorem token_eq (h : m.Stands s depth ks) :
    m.tokens[s.place.position]? = some (m.tokenAt s.place.position) :=
  getElem?_tokens h.within_place.1

/-- The token where the machine stands has the first of the kinds before which it stands. -/
theorem kind_eq (h : m.Stands s depth ks) :
    (m.tokenAt s.place.position).kind = ks.headD .eof := by
  rw [kind_tokenAt, h.kinds_eq]

/-- A machine that moves to where it may be stands there. -/
theorem moveTo (h : m.Stands s depth ks) {place : Place} (hwithin : m.Within place) {depth' : Nat}
    (hdepth : place.depth = depth') (hkinds : m.kindsFrom place.position = ks') :
    m.Stands (s.moveTo place) depth' ks' where
  within := List.forall_mem_cons.mpr ⟨hwithin, h.within⟩
  depth_eq := hdepth
  kinds_eq := hkinds

end Stands

/-! ## Sequences -/

namespace Performs

variable {action : Action α} {next : α → Action β} {a : α} {o : Outcome α}
  {f : α → List Kind → Outcome β} {o' : Outcome β}

/-- Returning a value performs it. -/
theorem pure (a : α) : m.Performs depth ks (pure a) ⟨.ok a, ks, []⟩ :=
  fun s hs => ⟨s, rfl, hs, (List.append_nil _).symm⟩

/-- Actions in sequence perform outcomes in sequence. -/
theorem bind (h : m.Performs depth ks action o)
    (hnext : ∀ a, o.result = .ok a → m.Performs depth o.rest (next a) (f a o.rest)) :
    m.Performs depth ks (action >>= next) (o.andThen f) := by
  intro s hs
  obtain ⟨mid, hrun, hmid, hlog⟩ := h s hs
  obtain ⟨result, rest, log⟩ := o
  cases result with
  | error fault =>
    refine ⟨mid, ?_, hmid, hlog⟩
    rw [ExceptT.run_bind, StateT.run_bind, hrun]
    rfl
  | ok a =>
    obtain ⟨after, hrun', hafter, hlog'⟩ := hnext a rfl mid hmid
    refine ⟨after, ?_, hafter, ?_⟩
    · rw [ExceptT.run_bind, StateT.run_bind, hrun]
      exact hrun'
    · rw [hlog', hlog, List.append_assoc]
      rfl

/-- Where a machine stands no kind is the end. -/
theorem of_ne_eof (h : (∀ k ∈ ks, k ≠ .eof) → m.Performs depth ks action o) :
    m.Performs depth ks action o :=
  fun s hs => h (fun _ hk => mem_kindsFrom_ne_eof (hs.kinds_eq ▸ hk)) s hs

/-- Where a machine stands fewer tokens are left than a loop has turns. -/
theorem of_lt_turns (h : ks.length < m.turns → m.Performs depth ks action o) :
    m.Performs depth ks action o := by
  intro s hs
  apply h _ s hs
  have hposition := hs.position_eq
  have henough := m.enough
  omega

/-- After an action that answers with a value, the next one goes on with it. -/
theorem logged {log : List LoweredPattern} (h : m.Performs depth ks action ⟨.ok a, ks', log⟩)
    (hnext : m.Performs depth ks' (next a) o') :
    m.Performs depth ks (action >>= next) (o'.logAfter log) := by
  have hbind : m.Performs depth ks (action >>= next)
      ((⟨.ok a, ks', log⟩ : Outcome α).andThen fun _ _ => o') := by
    apply h.bind
    intro a' ha'
    cases ha'
    exact hnext
  exact hbind

/-- After an action that has a value and logs nothing the next one performs all the rest. -/
theorem step (h : m.Performs depth ks action ⟨.ok a, ks', []⟩)
    (hnext : m.Performs depth ks' (next a) o') : m.Performs depth ks (action >>= next) o' :=
  h.logged hnext

/-- What follows an action that fails is not done. -/
theorem fault {fault : Fault} {log : List LoweredPattern}
    (h : m.Performs depth ks action ⟨.error fault, ks', log⟩) :
    m.Performs depth ks (action >>= next) ⟨.error fault, ks', log⟩ :=
  h.bind (f := fun _ _ => ⟨.error fault, ks', log⟩) fun _ ha => by contradiction

/-- An action after which a value is only returned performs that value. -/
theorem value {b : β} {log : List LoweredPattern}
    (h : m.Performs depth ks action ⟨.ok a, ks', log⟩) (hnext : next a = Pure.pure b) :
    m.Performs depth ks (action >>= next) ⟨.ok b, ks', log⟩ := by
  have hlogged := h.logged (hnext ▸ pure b)
  rw [Outcome.logAfter, List.append_nil] at hlogged
  exact hlogged

/-- An action whose value is only changed performs the changed outcome. -/
theorem map {g : α → β} {next : α → Action β} (h : m.Performs depth ks action o)
    (hnext : ∀ a, next a = Pure.pure (g a)) :
    m.Performs depth ks (action >>= next) (o.map g) := by
  rw [Outcome.map_eq_andThen]
  apply h.bind
  intro a ha
  rw [hnext]
  exact pure (g a)

end Performs

/-! ## Steps -/

section Steps

variable {s : State}

/-- Looking at the state does not change it. -/
theorem run_get_bind (next : State → Action α) (s : State) :
    (get >>= next).run.run s = (next s).run.run s :=
  rfl

/-- A value that may be missing is an answer that may be missing. -/
theorem run_liftM (o : Option α) (s : State) :
    (liftM o : Action α).run.run s = o.map fun a => (.ok a, s) := by
  cases o <;> rfl

/-- After a value the next action goes on from the state that was reached. -/
theorem run_bind_pure {action : Action α} {s after : State} {a : α}
    (h : action.run.run s = some (.ok a, after)) (next : α → Action β) :
    (action >>= next).run.run s = (next a).run.run after := by
  rw [ExceptT.run_bind, StateT.run_bind, h]
  rfl

/-- There is no answer exactly where the position has no token. -/
theorem run_token_eq_none_iff {s : State} :
    m.token.run.run s = none ↔ m.tokens.length ≤ s.place.position := by
  rw [token, run_get_bind, run_liftM, Option.map_eq_none_iff, List.getElem?_eq_none_iff]

/-- There is no answer exactly where no level is left to go up. -/
theorem run_leave_eq_none_iff {s : State} : leave.run.run s = none ↔ s.place.depth = 0 := by
  rw [leave, run_get_bind]
  cases s.place.depth with
  | zero => exact iff_of_true rfl rfl
  | succ depth => exact iff_of_false (by intro h; contradiction) (Nat.succ_ne_zero depth)

/-- Looking at the token where the machine stands does not move it. -/
theorem run_token (hs : m.Stands s depth ks) :
    m.token.run.run s = some (.ok (m.tokenAt s.place.position), s) := by
  rw [token, run_get_bind, run_liftM, hs.token_eq]
  rfl

/-- Looking at the kind where the machine stands does not move it. -/
theorem run_kind (hs : m.Stands s depth ks) :
    m.kind.run.run s = some (.ok (ks.headD .eof), s) := by
  rw [kind, run_bind_pure (run_token hs), hs.kind_eq]
  rfl

/-- Looking at the kind performs it, or the end. -/
theorem performs_kind : m.Performs depth ks m.kind ⟨.ok (ks.headD .eof), ks, []⟩ :=
  fun s hs => ⟨s, run_kind hs, hs, (List.append_nil _).symm⟩

/-- Looking ahead performs the kind that stands there, or the end. -/
theorem performs_kindAhead (offset : Nat) :
    m.Performs depth ks (m.kindAhead offset) ⟨.ok ((ks.drop offset).headD .eof), ks, []⟩ := by
  intro s hs
  refine ⟨s, ?_, hs, (List.append_nil _).symm⟩
  have hposition := hs.position_eq
  have hlength := m.length_tokens
  have hwithin : min (s.place.position + offset) (m.tokens.length - 1) < m.tokens.length := by omega
  have hkind : (m.tokenAt (min (s.place.position + offset) (m.tokens.length - 1))).kind =
      (ks.drop offset).headD .eof := by
    rw [kind_tokenAt]
    -- beyond the tokens it is the last one that answers, which is the end
    rcases Nat.le_total (s.place.position + offset) (m.tokens.length - 1) with hle | hle
    · rw [Nat.min_eq_left hle, kindsFrom_add, hs.kinds_eq]
    · have hnone : ks.drop offset = [] := List.drop_eq_nil_of_le (by omega)
      have hlast : m.kindsFrom (m.tokens.length - 1) = [] := by
        apply List.eq_nil_of_length_eq_zero
        rw [length_kindsFrom]
        omega
      rw [Nat.min_eq_right hle, hnone, hlast]
  rw [kindAhead, run_get_bind, getElem?_tokens hwithin, ← hkind]
  rfl

/-- Advancing passes a kind, and at the end it does nothing. -/
theorem performs_advance : m.Performs depth ks m.advance ⟨.ok (), ks.tail, []⟩ := by
  intro s hs
  rw [advance, run_bind_pure (run_kind hs)]
  cases ks with
  | nil => exact ⟨s, rfl, hs, (List.append_nil _).symm⟩
  | cons k ks =>
    -- the end is not reached yet, so there is a token after this one
    have hne : k ≠ .eof := mem_kindsFrom_ne_eof (hs.kinds_eq ▸ List.mem_cons_self)
    have hposition := hs.position_eq
    have hlength := m.length_tokens
    have hnext : s.place.position + 1 < m.tokens.length := by
      rw [List.length_cons] at hposition
      omega
    have hkinds : m.kindsFrom (s.place.position + 1) = ks := by
      rw [kindsFrom_add, hs.kinds_eq]
      rfl
    have hwithin : m.Within ⟨s.place.position + 1, s.place.depth⟩ := ⟨hnext, hs.within_place.2⟩
    have hmoved := hs.moveTo hwithin hs.depth_eq hkinds
    rw [List.headD_cons, if_pos hne]
    exact ⟨_, rfl, hmoved, (List.append_nil _).symm⟩

/-- After a kind is passed the next action goes on behind it. -/
theorem Performs.advance {next : Unit → Action α} {o : Outcome α} {k : Kind}
    (h : m.Performs depth ks (next ()) o) :
    m.Performs depth (k :: ks) (m.advance >>= next) o :=
  Performs.step (a := ()) performs_advance h

/-- Moving past a kind is what the parser does that skips it. -/
theorem Performs.advance_run {next : Unit → Action α} {q : Unit → Parser α} {k : Kind}
    (h : m.Performs depth ks (next ()) ((q ()).run ks)) :
    m.Performs depth (k :: ks) (m.advance >>= next) ((Parser.advance >>= q).run (k :: ks)) := by
  rw [Parser.run_bind, Parser.run_advance, Outcome.andThen_ok, Outcome.logAfter_nil]
  exact h.advance

/-- Checking for a kind says whether it is the first one. -/
theorem performs_check {k : Kind} (hk : k ≠ .eof) :
    m.Performs depth ks (m.check k) ⟨.ok (decide (ks.head? = some k)), ks, []⟩ := by
  apply performs_kind.step
  have hfound : (ks.headD .eof ≠ .eof && ks.headD .eof = k) = decide (ks.head? = some k) := by
    cases ks with
    | nil => simp
    | cons found ks =>
      by_cases hfound : found = k
      · simp [hfound, hk]
      · simp [hfound]
  rw [hfound]
  exact Performs.pure _

/-- Consuming a kind passes it if it is the first one. -/
theorem performs_consume {k : Kind} (hk : k ≠ .eof) :
    m.Performs depth ks (m.consume k)
      ⟨.ok (decide (ks.head? = some k)), if ks.head? = some k then ks.tail else ks, []⟩ := by
  apply (performs_check hk).step
  by_cases hfound : ks.head? = some k
  · rw [if_pos (decide_eq_true hfound), if_pos hfound, decide_eq_true hfound]
    exact performs_advance.step (Performs.pure _)
  · rw [if_neg (by simpa using hfound), if_neg hfound, decide_eq_false hfound]
    exact Performs.pure _

/-- Giving up with an error that does not depend on the place. -/
theorem performs_throw {error : ParseError} {fault : Fault}
    (h : ∀ token, ParseError.ofFault m.maxDepth token fault = error) :
    m.Performs depth ks (throw error : Action α) ⟨.error fault, ks, []⟩ := by
  intro s hs
  refine ⟨s, ?_, hs, (List.append_nil _).symm⟩
  have herror : m.errorAt s.place fault = error := h _
  rw [← herror]
  rfl

/-- Giving up performs the fault with what was expected. -/
theorem performs_unexpected (expected : Expected) :
    m.Performs depth ks (m.unexpected expected : Action α)
      ⟨.error (.unexpected expected), ks, []⟩ := by
  intro s hs
  refine ⟨s, ?_, hs, (List.append_nil _).symm⟩
  rw [unexpected, run_bind_pure (run_token hs)]
  rfl

/-- Where the kind stands the check chooses the first branch. -/
theorem Performs.check {k : Kind} (hk : k ≠ .eof) {yes no : Action α} {o : Outcome α}
    (h : m.Performs depth (k :: ks) yes o) :
    m.Performs depth (k :: ks) (m.check k >>= fun found => if found then yes else no) o := by
  apply (performs_check hk).step
  rw [decide_eq_true List.head?_cons, if_pos rfl]
  exact h

/-- Where another kind stands the check chooses the second branch. -/
theorem Performs.not_check {k : Kind} (hk : k ≠ .eof) (hhead : ks.head? ≠ some k)
    {yes no : Action α} {o : Outcome α} (h : m.Performs depth ks no o) :
    m.Performs depth ks (m.check k >>= fun found => if found then yes else no) o := by
  apply (performs_check hk).step
  rw [if_neg (by simpa using hhead)]
  exact h

/-- Where the kind stands it is consumed. -/
theorem Performs.consume {k : Kind} (hk : k ≠ .eof) {next : Bool → Action α} {o : Outcome α}
    (h : m.Performs depth ks (next true) o) :
    m.Performs depth (k :: ks) (m.consume k >>= next) o := by
  apply (performs_consume hk).step
  rw [if_pos List.head?_cons, decide_eq_true List.head?_cons]
  exact h

/-- Where another kind stands nothing is consumed. -/
theorem Performs.not_consume {k : Kind} (hk : k ≠ .eof) (hhead : ks.head? ≠ some k)
    {next : Bool → Action α} {o : Outcome α} (h : m.Performs depth ks (next false) o) :
    m.Performs depth ks (m.consume k >>= next) o := by
  apply (performs_consume hk).step
  rw [if_neg hhead, decide_eq_false hhead]
  exact h

/-- Logging a pattern performs the log entry. -/
theorem performs_record (entry : LoweredPattern) :
    m.Performs depth ks (record entry) ⟨.ok (), ks, [entry]⟩ :=
  fun _ hs => ⟨_, rfl, ⟨hs.within, hs.depth_eq, hs.kinds_eq⟩, rfl⟩

/-- Taking a kind is what the parser does that takes it; the end is never asked for. -/
theorem performs_take {select : Kind → Option α} (heof : select .eof = none)
    (expected : Expected) :
    m.Performs depth ks (m.take select expected) ((Parser.take select expected).run ks) := by
  apply performs_kind.step
  cases ks with
  | nil =>
    rw [List.headD_nil, heof]
    exact performs_unexpected expected
  | cons k ks =>
    rw [List.headD_cons]
    cases hk : select k with
    | none =>
      rw [Parser.run_take_of_none hk]
      exact performs_unexpected expected
    | some a =>
      rw [Parser.run_take_of_some hk]
      exact (Performs.pure a).advance

/-- A kind that is as asked for is taken. -/
theorem Performs.take {select : Kind → Option α} (heof : select .eof = none) {k : Kind} {a : α}
    (hk : select k = some a) {expected : Expected} {next : α → Action β} {o : Outcome β}
    (h : m.Performs depth ks (next a) o) :
    m.Performs depth (k :: ks) (m.take select expected >>= next) o := by
  have htake : m.Performs depth (k :: ks) (m.take select expected) _ := performs_take heof expected
  rw [Parser.run_take_of_some hk] at htake
  exact htake.step h

/-- A kind that is not as asked for is left where it is and reported. -/
theorem Performs.not_take {select : Kind → Option α} (heof : select .eof = none)
    (hselect : ∀ k ∈ ks.head?, select k = none) {expected : Expected} {next : α → Action β} :
    m.Performs depth ks (m.take select expected >>= next)
      ⟨.error (.unexpected expected), ks, []⟩ := by
  have htake : m.Performs depth ks (m.take select expected) _ := performs_take heof expected
  cases ks with
  | nil => exact htake.fault
  | cons k ks =>
    rw [Parser.run_take_of_none (hselect k rfl)] at htake
    exact htake.fault

/-- The machine expects a kind as the parser does. -/
theorem performs_expect {k : Kind} (hk : k ≠ .eof) (expected : Expected) :
    m.Performs depth ks (m.expect k expected) ((Parser.expect k expected).run ks) := by
  cases ks with
  | nil => exact Performs.not_consume hk (by simp) (performs_unexpected expected)
  | cons found ks =>
    by_cases hfound : found = k
    · subst hfound
      rw [Parser.expect, Parser.run_take_of_some (if_pos rfl)]
      exact Performs.consume hk (Performs.pure ())
    · have hhead : (found :: ks).head? ≠ some k := by simpa using hfound
      rw [Parser.expect, Parser.run_take_of_none (if_neg hfound)]
      exact Performs.not_consume hk hhead (performs_unexpected expected)

/-! ## Levels -/

/-- An action that is done for its answer does not end with an error itself. -/
theorem run_answerOf {action : Action α} {s after : State} {answer : Except ParseError α}
    (h : action.run.run s = some (answer, after)) :
    (answerOf action).run.run s = some (.ok answer, after) := by
  rw [answerOf, ExceptT.run_lift, StateT.run_map, h]
  rfl

/-- Entering a level that is not too deep leads one level down, before the same kinds. -/
theorem run_enter {s : State} (hs : m.Stands s depth ks) (h : depth < m.maxDepth) :
    ∃ after, m.enter.run.run s = some (.ok (), after) ∧ m.Stands after (depth + 1) ks ∧
      after.log = s.log := by
  have hdepth : ¬ s.place.depth ≥ m.maxDepth := by
    rw [hs.depth_eq]
    omega
  have hwithin : m.Within ⟨s.place.position, s.place.depth + 1⟩ := by
    refine ⟨hs.within_place.1, ?_⟩
    rw [hs.depth_eq]
    exact h
  refine ⟨_, ?_, hs.moveTo hwithin (congrArg (· + 1) hs.depth_eq) hs.kinds_eq, rfl⟩
  rw [enter, run_get_bind, if_neg hdepth]
  rfl

/-- Leaving a level leads one level up and never finds depth zero. -/
theorem run_leave {s : State} (hs : m.Stands s (depth + 1) ks) :
    ∃ after, leave.run.run s = some (.ok (), after) ∧ m.Stands after depth ks ∧
      after.place.position = s.place.position ∧ after.log = s.log := by
  have hwithin : m.Within ⟨s.place.position, depth⟩ := by
    refine ⟨hs.within_place.1, ?_⟩
    have hle := hs.within_place.2
    rw [hs.depth_eq] at hle
    exact Nat.le_of_succ_le hle
  refine ⟨_, ?_, hs.moveTo hwithin rfl hs.kinds_eq, rfl, rfl⟩
  rw [leave, run_get_bind, hs.depth_eq]
  rfl

/-- One level down an action does what it does there, and after a value as after an error the
machine is back at the depth where it was. -/
theorem performs_nested {action : Action α} {o : Outcome α} (hdepth : depth < m.maxDepth)
    (h : m.Performs (depth + 1) ks action o) : m.Performs depth ks (m.nested action) o := by
  intro s hs
  obtain ⟨entered, henter, hentered, hlog⟩ := run_enter hs hdepth
  obtain ⟨mid, hrun, hmid, hmidLog⟩ := h entered hentered
  obtain ⟨after, hleave, hafter, hposition, hafterLog⟩ := run_leave hmid
  refine ⟨after, ?_, hafter, by rw [hafterLog, hmidLog, hlog]⟩
  rw [nested, run_bind_pure henter, run_bind_pure (run_answerOf hrun), run_bind_pure hleave]
  -- an error is made one level down, but it does not depend on the depth
  have herror : m.errorAt mid.place = m.errorAt after.place := by
    funext fault
    rw [errorAt, errorAt, hposition]
  rw [herror]
  cases o.result <;> rfl

/-- A level that is too deep is reported before anything is read in it. -/
theorem performs_nested_tooDeep {action : Action α} (h : m.maxDepth ≤ depth) :
    m.Performs depth ks (m.nested action) ⟨.error .tooDeep, ks, []⟩ := by
  apply Performs.fault
  intro s hs
  refine ⟨s, ?_, hs, (List.append_nil _).symm⟩
  have hdepth : s.place.depth ≥ m.maxDepth := hs.depth_eq ▸ h
  rw [enter, run_get_bind, if_pos hdepth, run_bind_pure (run_token hs)]
  rfl

end Steps

end Machine

end RowFilter
