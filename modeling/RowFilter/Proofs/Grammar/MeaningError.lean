import Mathlib.Data.List.TakeWhile
import RowFilter.Proofs.Grammar.Exactness
import RowFilter.Proofs.Grammar.Violations

/-!
# Errors in the meaning

A list or a pattern is refused before a look at what follows it. So an error in the meaning of a
text says that the tokens up to the end of some leaf, with the parentheses closed that are open
there, keep the grammar: the leaf is not sound, and the leaves before it are. It says nothing about
the tokens after the leaf, which need not go on in any way that the grammar knows.
-/

set_option autoImplicit false

namespace RowFilter.Grammar

open RowFilter.Parser

/-! ## Where trees stop -/

/-- No leaf consists of closing parentheses alone. -/
theorem Leaf.exists_kind_ne_rightParen (l : Leaf) : ∃ k ∈ l.kinds, k ≠ .rightParen := by
  cases l with
  | const b => exact ⟨.keyword (.bool b), by simp [kinds], by simp⟩
  | test c op => exact ⟨.keyword .is, by cases op <;> simp [kinds, testKinds], by simp⟩
  | member c op first more => exact ⟨.leftParen, by simp [kinds], by simp⟩
  | like c negated raw => exact ⟨.string raw, by simp [kinds], by simp⟩
  | compare c op value => exact ⟨.comparison op, by simp [kinds], by simp⟩
  | reflected value op c distinct => exact ⟨.comparison op, by simp [kinds], by simp⟩

/-- Copies of one item at the end are told from the list before them by any other item in it. -/
theorem append_replicate_inj {α : Type} [DecidableEq α] {a : α} {before before' ls : List α}
    {m n : Nat} (hls : ∃ b ∈ ls, b ≠ a)
    (h : before ++ ls ++ List.replicate m a = before' ++ ls ++ List.replicate n a) :
    before = before' := by
  have hdrop : ∀ (front : List α) (k : Nat),
      (front ++ ls ++ List.replicate k a).reverse.dropWhile (· == a) =
        ls.reverse.dropWhile (· == a) ++ front.reverse := by
    intro front k
    have hrun : ∀ b ∈ List.replicate k a, (b == a) = true := by
      intro b hb
      rw [List.eq_of_mem_replicate hb, beq_self_eq_true]
    have hne : (ls.reverse.dropWhile (· == a)).isEmpty = false := by
      rw [List.isEmpty_eq_false_iff, Ne, List.dropWhile_eq_nil_iff]
      obtain ⟨b, hb, hba⟩ := hls
      intro hall
      exact hba (eq_of_beq (hall b (List.mem_reverse.mpr hb)))
    rw [List.reverse_append, List.reverse_append, List.reverse_replicate,
      List.dropWhile_append_of_pos hrun, List.dropWhile_append, hne]
    rfl
  have hreverse := congrArg (fun l => l.reverse.dropWhile (· == a)) h
  simp only [hdrop] at hreverse
  exact List.reverse_inj.mp (List.append_cancel_left hreverse)

/-- Of some kinds and the leaves in them: the last leaf has the violation and the others are sound,
and the kinds are read up to the end of this leaf. After it they only close parentheses. -/
def StopsAt (ks : List Kind) (leaves : List Leaf) (read : List Kind) (v : Violation) : Prop :=
  ∃ left l n, leaves = left ++ [l] ∧ (∀ m ∈ left, m.Sound) ∧ l.meaning = .error v ∧
    l.kinds <:+ read ∧ ks = read ++ List.replicate n .rightParen

namespace StopsAt

variable {ks read read' : List Kind} {leaves : List Leaf} {v v' : Violation}

/-- A leaf with a violation is read up to its end. -/
theorem leaf {l : Leaf} (h : l.meaning = .error v) : StopsAt l.kinds [l] l.kinds v :=
  ⟨[], l, 0, rfl, List.forall_mem_nil _, h, List.suffix_refl _, (List.append_nil _).symm⟩

/-- A parenthesis that closes after the leaf does not change where reading stops. -/
theorem close (h : StopsAt ks leaves read v) : StopsAt (ks ++ [.rightParen]) leaves read v := by
  obtain ⟨left, l, n, hleaves, hleft, hl, hread, rfl⟩ := h
  refine ⟨left, l, n + 1, hleaves, hleft, hl, hread, ?_⟩
  rw [List.replicate_succ', List.append_assoc]

/-- Kinds and sound leaves before it do not change where reading stops. -/
theorem prepend (h : StopsAt ks leaves read v) (before : List Kind) {sound : List Leaf}
    (hsound : ∀ m ∈ sound, m.Sound) :
    StopsAt (before ++ ks) (sound ++ leaves) (before ++ read) v := by
  obtain ⟨left, l, n, rfl, hleft, hl, hread, rfl⟩ := h
  exact ⟨sound ++ left, l, n, (List.append_assoc _ _ _).symm,
    List.forall_mem_append.mpr ⟨hsound, hleft⟩, hl, hread.trans (List.suffix_append _ _),
    (List.append_assoc _ _ _).symm⟩

/-- There is only one place to stop. -/
theorem unique (h : StopsAt ks leaves read v) (h' : StopsAt ks leaves read' v') :
    read = read' ∧ v = v' := by
  obtain ⟨left, l, m, rfl, -, hl, ⟨before, rfl⟩, rfl⟩ := h
  obtain ⟨left', l', n, hleaves, -, hl', ⟨before', rfl⟩, hks⟩ := h'
  obtain ⟨-, hlast⟩ := List.append_inj' hleaves rfl
  cases hlast
  have hbefore := append_replicate_inj l.exists_kind_ne_rightParen hks
  rw [hl] at hl'
  exact ⟨by rw [hbefore], Except.error.inj hl'⟩

end StopsAt

/-- The kinds are read up to where a tree of the symbol stops that is nested no more deeply than
given. -/
def Stops (levels : Nat) (s : Symbol) (read : List Kind) (v : Violation) : Prop :=
  ∃ t : Phrase s, t.depth ≤ levels ∧ StopsAt t.kinds t.leaves read v

/-- The same for the operands of a repetition. -/
def RestStops (levels : Nat) (op : Connective) (read : List Kind) (v : Violation) : Prop :=
  ∃ t : Rest op, t.depth ≤ levels ∧ StopsAt t.kinds t.leaves read v

namespace Stops

variable {levels : Nat} {op : Connective} {read : List Kind} {v : Violation}

/-- Reading a leaf with a violation stops at its end. -/
theorem leaf (levels : Nat) {l : Leaf} (h : l.meaning = .error v) :
    Stops levels .operand l.kinds v :=
  ⟨.leaf l, Nat.zero_le _, .leaf h⟩

/-- Where the operand of a negation stops the negation stops too. -/
theorem not (h : Stops levels .operand read v) :
    Stops (levels + 1) .operand (.keyword .not :: read) v := by
  obtain ⟨t, hdepth, hstops⟩ := h
  exact ⟨.not t, Nat.succ_le_succ hdepth, hstops.prepend [.keyword .not] (List.forall_mem_nil _)⟩

/-- Where the content of a group stops the group stops too. -/
theorem group (h : Stops levels (.chain .or) read v) :
    Stops (levels + 1) .operand (.leftParen :: read) v := by
  obtain ⟨t, hdepth, hstops⟩ := h
  exact ⟨.group t, Nat.succ_le_succ hdepth,
    hstops.close.prepend [.leftParen] (List.forall_mem_nil _)⟩

/-- A chain stops in its first operand. -/
theorem first (h : Stops levels (.below op) read v) : Stops levels (.chain op) read v := by
  obtain ⟨t, hdepth, hstops⟩ := h
  refine ⟨.chain t .done, ?_, ?_⟩
  · rw [Phrase.depth, Rest.depth, Nat.max_zero]
    exact hdepth
  · rw [Phrase.kinds, Rest.kinds, List.append_nil, Phrase.leaves, Rest.leaves, List.append_nil]
    exact hstops

/-- A chain stops after its first operand. -/
theorem later {t : Phrase (.below op)} {p : Predicate} (ht : t.read levels = .ok p)
    (h : RestStops levels op read v) : Stops levels (.chain op) (t.kinds ++ read) v := by
  obtain ⟨more, hdepth, hstops⟩ := h
  obtain ⟨htdepth, hsound⟩ := Phrase.exists_read_iff.mp ⟨p, ht⟩
  exact ⟨.chain t more, Nat.max_le.mpr ⟨htdepth, hdepth⟩, hstops.prepend t.kinds hsound⟩

/-- Where the first operand of a repetition stops the repetition stops too. -/
theorem rest (h : Stops levels (.below op) read v) :
    RestStops levels op (.keyword (.connective op) :: read) v := by
  obtain ⟨t, hdepth, hstops⟩ := h
  refine ⟨.next t .done, ?_, ?_⟩
  · rw [Rest.depth, Rest.depth, Nat.max_zero]
    exact hdepth
  · rw [Rest.kinds, Rest.kinds, List.append_nil, Rest.leaves, Rest.leaves, List.append_nil]
    exact hstops.prepend [.keyword (.connective op)] (List.forall_mem_nil _)

end Stops

/-- A repetition whose first operand is read stops where the operands after it stop. -/
theorem RestStops.next {levels : Nat} {op : Connective} {read : List Kind} {v : Violation}
    {t : Phrase (.below op)} {p : Predicate} (ht : t.read levels = .ok p)
    (h : RestStops levels op read v) :
    RestStops levels op (.keyword (.connective op) :: (t.kinds ++ read)) v := by
  obtain ⟨more, hdepth, hstops⟩ := h
  obtain ⟨htdepth, hsound⟩ := Phrase.exists_read_iff.mp ⟨p, ht⟩
  exact ⟨.next t more, Nat.max_le.mpr ⟨htdepth, hdepth⟩,
    hstops.prepend (.keyword (.connective op) :: t.kinds) hsound⟩

/-! ## What violates stops -/

/-- If the parser gives up because of a violation, it has read up to where a tree stops. -/
def ViolatesTrees (levels : Nat) (s : Symbol) (p : Parser Predicate) : Prop :=
  ∀ ks v, Violates p ks v → ∃ read rest, ks = read ++ rest ∧ Stops levels s read v

/-- If reading operands ends with a violation, it has read up to where a repetition stops. -/
theorem restStops_of_readOperands {levels : Nat} {op : Connective} {p : Parser Predicate}
    (hreads : ReadsTrees levels (.below op) p) (hp : ViolatesTrees levels (.below op) p)
    (ks : List Kind) {v : Violation} (h : (readOperands op p ks).result = .error v.fault) :
    ∃ read rest, ks = read ++ rest ∧ RestStops levels op read v := by
  fun_induction readOperands op p ks with
  | case1 more o q hq =>
    rename_i ih
    cases hrest : (readOperands op p o.rest).result with
    | ok tail => simp [Outcome.map, Outcome.logAfter, Except.map, hrest] at h
    | error fault =>
      simp only [Outcome.map, Outcome.logAfter, Except.map, hrest] at h
      cases h
      obtain ⟨t, hmore, ht⟩ := hreads more q o.rest ⟨hq, rfl⟩
      obtain ⟨read, rest, htail, hstops⟩ := ih hrest
      refine ⟨.keyword (.connective op) :: (t.kinds ++ read), rest, ?_, hstops.next ht⟩
      rw [hmore, htail, List.cons_append, List.append_assoc]
  | case2 | case4 | case5 => contradiction
  | case3 more o fault _ ho =>
    cases h
    obtain ⟨read, rest, rfl, hstops⟩ := hp more v ho
    exact ⟨_, rest, rfl, hstops.rest⟩

/-- A chain gives up only where a tree stops, if its operands do. -/
theorem violatesTrees_chain {levels : Nat} {op : Connective} {p : Parser Predicate}
    (hreads : ReadsTrees levels (.below op) p) (hp : ViolatesTrees levels (.below op) p) :
    ViolatesTrees levels (.chain op) (chain op p) := by
  intro ks v h
  rcases violates_bind.mp h with hfirst | ⟨q, mid, hfirst, hmore⟩
  · obtain ⟨read, rest, hks, hstops⟩ := hp ks v hfirst
    exact ⟨read, rest, hks, hstops.first⟩
  · rcases violates_bind.mp hmore with hmore | ⟨qs, _, -, hdone⟩
    · obtain ⟨t, rfl, ht⟩ := hreads ks q mid hfirst
      obtain ⟨read, rest, rfl, hstops⟩ := restStops_of_readOperands hreads hp mid hmore
      exact ⟨t.kinds ++ read, rest, (List.append_assoc _ _ _).symm, .later ht hstops⟩
    · exact absurd hdone not_violates_pure

/-- Chains of both connectives give up only where a tree stops, if the operands do. -/
theorem violatesTrees_connected {levels : Nat} {p : Parser Predicate}
    (hreads : ReadsTrees levels .operand p) (hp : ViolatesTrees levels .operand p) :
    ViolatesTrees levels (.chain .or) (connected p) :=
  violatesTrees_chain (readsTrees_chain hreads) (violatesTrees_chain hreads hp)

/-- The induction is on the levels of nesting: below a negation or a parenthesis there is one level
less. A closing parenthesis that is missing is no violation. -/
theorem violatesTrees_operand (levels : Nat) : ViolatesTrees levels .operand (operand levels) := by
  induction levels with
  | zero =>
    intro ks v h
    simp only [operand, violates_peek] at h
    split at h
    · exact absurd (violates_fail.mp h) tooDeep_ne_fault
    · exact absurd (violates_fail.mp h) tooDeep_ne_fault
    · obtain ⟨l, rest, rfl, hl⟩ := leaf_of_violates h
      exact ⟨l.kinds, rest, rfl, .leaf 0 hl⟩
  | succ n ih =>
    intro ks v h
    simp only [operand, violates_peek] at h
    split at h
    · rw [violates_advance_bind] at h
      rcases violates_bind.mp h with h | ⟨p, mid, -, hdone⟩
      · obtain ⟨read, rest, rfl, hstops⟩ := ih _ v h
        exact ⟨_, rest, rfl, hstops.not⟩
      · exact absurd hdone not_violates_pure
    · rw [violates_advance_bind] at h
      rcases violates_bind.mp h with h | ⟨p, mid, -, hclose⟩
      · obtain ⟨read, rest, rfl, hstops⟩ :=
          violatesTrees_connected (readsTrees_operand n) ih _ v h
        exact ⟨_, rest, rfl, hstops.group⟩
      · simp [violates_bind] at hclose
    · obtain ⟨l, rest, rfl, hl⟩ := leaf_of_violates h
      exact ⟨l.kinds, rest, rfl, .leaf _ hl⟩

/-- The whole parser gives up only where a tree stops, at every level of nesting. -/
theorem violatesTrees_expression (levels : Nat) :
    ViolatesTrees levels (.chain .or) (expression levels) :=
  violatesTrees_connected (readsTrees_operand levels) (violatesTrees_operand levels)

/-! ## What stops violates -/

/-- The last leaf of two parts is the last one of the second part, if that has any. -/
theorem leaves_split {leaves more left : List Leaf} {l : Leaf} (h : leaves ++ more = left ++ [l]) :
    more = [] ∧ leaves = left ++ [l] ∨ ∃ left', more = left' ++ [l] ∧ left = leaves ++ left' := by
  rcases List.eq_nil_or_concat more with rfl | ⟨left', l', rfl⟩
  · exact Or.inl ⟨rfl, by rwa [List.append_nil] at h⟩
  · right
    rw [List.concat_eq_append, ← List.append_assoc] at h
    obtain ⟨hleft, hl⟩ := List.append_inj' h rfl
    exact ⟨left', by rw [List.concat_eq_append, hl], hleft.symm⟩

mutual

/-- A tree of which only the last leaf is unsound is refused at the end of this leaf, whatever
stands after it. -/
theorem Phrase.violates {s : Symbol} {levels : Nat} {left : List Leaf} {l : Leaf} {v : Violation}
    (hleft : ∀ m ∈ left, m.Sound) (hl : l.meaning = .error v) :
    {t : Phrase s} → t.depth ≤ levels → t.leaves = left ++ [l] →
      ∃ read, StopsAt t.kinds t.leaves read v ∧
        ∀ rest, Violates (parser levels s) (read ++ rest) v
  | .leaf l', _, hleaves => by
    have happend : [] ++ [l'] = left ++ [l] := hleaves
    obtain ⟨-, hlast⟩ := List.append_inj' happend rfl
    cases hlast
    refine ⟨l.kinds, .leaf hl, ?_⟩
    intro rest
    have hrun := operand_run_eq_atom levels (l.head?_kinds rest).1 (l.head?_kinds rest).2
    rw [parser, Violates, hrun]
    exact l.violates hl rest
  | .not t, hdepth, hleaves => by
    cases levels with
    | zero => exact absurd hdepth (Nat.not_succ_le_zero _)
    | succ n =>
      obtain ⟨read, hstops, hviolates⟩ :=
        Phrase.violates hleft hl (Nat.le_of_succ_le_succ hdepth) hleaves
      refine ⟨_, hstops.prepend [.keyword .not] (List.forall_mem_nil _), ?_⟩
      intro rest
      exact violates_bind.mpr (Or.inl (hviolates rest))
  | .group t, hdepth, hleaves => by
    cases levels with
    | zero => exact absurd hdepth (Nat.not_succ_le_zero _)
    | succ n =>
      obtain ⟨read, hstops, hviolates⟩ :=
        Phrase.violates hleft hl (Nat.le_of_succ_le_succ hdepth) hleaves
      refine ⟨_, hstops.close.prepend [.leftParen] (List.forall_mem_nil _), ?_⟩
      intro rest
      exact violates_bind.mpr (Or.inl (hviolates rest))
  | @Phrase.chain op first more, hdepth, hleaves => by
    obtain ⟨hfirstDepth, hmoreDepth⟩ := Nat.max_le.mp hdepth
    -- the last leaf is in the first operand, which is then the only one, or behind it
    rcases leaves_split hleaves with ⟨hmore, hfirst⟩ | ⟨left', hmore, rfl⟩
    · obtain ⟨read, hstops, hviolates⟩ := Phrase.violates hleft hl hfirstDepth hfirst
      refine ⟨read, ?_, ?_⟩
      · rw [Rest.eq_done_of_leaves_eq_nil hmore, Phrase.kinds, Rest.kinds, List.append_nil,
          Phrase.leaves, Rest.leaves, List.append_nil]
        exact hstops
      · intro rest
        rw [parser_chain]
        exact violates_bind.mpr (Or.inl (hviolates rest))
    · obtain ⟨hsound, hleft'⟩ := List.forall_mem_append.mp hleft
      obtain ⟨read, hstops, hviolates⟩ := Rest.violates hleft' hl hmoreDepth hmore
      obtain ⟨p, hp⟩ := Phrase.exists_read_iff.mpr ⟨hfirstDepth, hsound⟩
      refine ⟨_, hstops.prepend first.kinds hsound, ?_⟩
      intro rest
      rw [parser_chain, List.append_assoc]
      have hreads := Phrase.reads (Symbol.ends_connective op (read ++ rest)) hp
      exact violates_bind.mpr (Or.inr ⟨p, _, hreads, violates_bind.mpr (Or.inl (hviolates rest))⟩)

/-- The same for a repetition, which begins with its connective. -/
theorem Rest.violates {op : Connective} {levels : Nat} {left : List Leaf} {l : Leaf}
    {v : Violation} (hleft : ∀ m ∈ left, m.Sound) (hl : l.meaning = .error v) :
    {t : Rest op} → t.depth ≤ levels → t.leaves = left ++ [l] →
      ∃ read, StopsAt t.kinds t.leaves (.keyword (.connective op) :: read) v ∧
        ∀ rest, Violates (operands op (parser levels (.below op)))
          (.keyword (.connective op) :: (read ++ rest)) v
  | .done, _, hleaves => by
    exact absurd hleaves.symm (List.append_ne_nil_of_right_ne_nil _ (List.cons_ne_nil _ _))
  | .next t more, hdepth, hleaves => by
    obtain ⟨htDepth, hmoreDepth⟩ := Nat.max_le.mp hdepth
    rcases leaves_split hleaves with ⟨hmore, ht⟩ | ⟨left', hmore, rfl⟩
    · obtain ⟨read, hstops, hviolates⟩ := Phrase.violates hleft hl htDepth ht
      refine ⟨read, ?_, ?_⟩
      · rw [Rest.eq_done_of_leaves_eq_nil hmore, Rest.kinds, Rest.kinds, List.append_nil,
          Rest.leaves, Rest.leaves, List.append_nil]
        exact hstops.prepend [.keyword (.connective op)] (List.forall_mem_nil _)
      · intro rest
        show (readOperands op _ (.keyword (.connective op) :: (read ++ rest))).result = _
        rw [readOperands_of_fault (hviolates rest) v.fault_ne_unexpected]
    · obtain ⟨hsound, hleft'⟩ := List.forall_mem_append.mp hleft
      obtain ⟨read, hstops, hviolates⟩ := Rest.violates hleft' hl hmoreDepth hmore
      obtain ⟨p, hp⟩ := Phrase.exists_read_iff.mpr ⟨htDepth, hsound⟩
      refine ⟨t.kinds ++ .keyword (.connective op) :: read,
        hstops.prepend (.keyword (.connective op) :: t.kinds) hsound, ?_⟩
      intro rest
      obtain ⟨hresult, hrest⟩ := Phrase.reads (Symbol.ends_connective op (read ++ rest)) hp
      have hmore : (readOperands op (parser levels (.below op))
          (.keyword (.connective op) :: (read ++ rest))).result = .error v.fault := hviolates rest
      rw [List.append_assoc, List.cons_append]
      show (readOperands _ _ _).result = _
      rw [readOperands_of_ok hresult, hrest]
      simp [Outcome.map, Outcome.logAfter, Except.map, hmore]

end

/-- Reading gives up with a violation exactly if the kinds begin with those up to which a tree
stops. -/
theorem violates_expression_iff {levels : Nat} {ks : List Kind} {v : Violation} :
    Violates (expression levels) ks v ↔ ∃ read, read <+: ks ∧ Stops levels (.chain .or) read v := by
  constructor
  · intro h
    obtain ⟨read, rest, rfl, hstops⟩ := violatesTrees_expression levels ks v h
    exact ⟨read, List.prefix_append read rest, hstops⟩
  · rintro ⟨read, ⟨rest, rfl⟩, t, hdepth, hstops⟩
    obtain ⟨left, l, -, hleaves, hleft, hl, -⟩ := id hstops
    obtain ⟨read', hstops', hviolates⟩ := Phrase.violates hleft hl hdepth hleaves
    obtain ⟨rfl, -⟩ := hstops.unique hstops'
    exact hviolates rest

/-! ## Errors of texts -/

/-- Only the fault of a violation is reported as the error of this violation. -/
theorem ofFault_eq_error_iff {limit : Nat} {token : Token} {fault : Fault} {v : Violation} :
    ParseError.ofFault limit token fault = v.error ↔ fault = v.fault := by
  cases fault <;> cases v <;> simp [ParseError.ofFault, Violation.error, Violation.fault]

/-- The errors in the meaning of a text are the violations. -/
theorem kind_eq_meaning_iff {e : ParseError} :
    e.kind = .meaning ↔ ∃ v : Violation, e = v.error := by
  constructor
  · intro h
    cases e with
    | invalidSet cause => exact ⟨.list cause, rfl⟩
    | invalidPattern raw => exact ⟨.pattern raw, rfl⟩
    | _ => contradiction
  · rintro ⟨v, rfl⟩
    cases v <;> rfl

/-- A text fails with a violation exactly if its tokens are valid and the parser gives up with the
violation. -/
theorem parseWith_eq_error_iff {config : Config} {text : String} {v : Violation} :
    parseWith config text = .error v.error ↔ (TokenStream.ofText text).Clean ∧
      Violates (expression config.maxDepth) (TokenStream.ofText text).kinds v := by
  have hfault : v.fault ≠ .unexpected .endOfText := v.fault_ne_unexpected .endOfText
  cases hinvalid : (TokenStream.ofText text).firstInvalid? with
  | some invalid =>
    rw [parseWith_of_firstInvalid? hinvalid, ← TokenStream.firstInvalid?_eq_none_iff, hinvalid]
    cases v <;> simp [Violation.error]
  | none =>
    have hclean := TokenStream.firstInvalid?_eq_none_iff.mp hinvalid
    rw [parseWith_of_clean hclean, and_iff_right hclean]
    have hviolates : Violates (expression config.maxDepth) (TokenStream.ofText text).kinds v ↔
        (Session.start config text).outcome.result = .error v.fault := Iff.rfl
    rw [hviolates, ← Outcome.closed_eq_error_iff hfault, Session.readingOf]
    cases (Session.start config text).outcome.closed.result with
    | ok p => simp [Except.mapError]
    | error fault => simp [Except.mapError, Session.errorOf, ofFault_eq_error_iff]

/-- What an error in the meaning of a text says. There is such an error exactly if no token of the
text is invalid and the tokens begin with those of a tree of the grammar up to where it stops: its
last leaf has the violation that is reported, the leaves before it are sound, and only the
parentheses that are open after it are left to close. The tokens after the leaf do not matter. -/
theorem parseWith_meaning_error_iff (config : Config) (text : String) (e : ParseError) :
    (parseWith config text = .error e ∧ e.kind = .meaning) ↔
      (TokenStream.ofText text).Clean ∧
      ∃ (t : Phrase (.chain .or)) (read : List Kind) (v : Violation),
        t.depth ≤ config.maxDepth ∧ StopsAt t.kinds t.leaves read v ∧
          read <+: (TokenStream.ofText text).kinds ∧ e = v.error := by
  constructor
  · rintro ⟨herror, hkind⟩
    obtain ⟨v, rfl⟩ := kind_eq_meaning_iff.mp hkind
    obtain ⟨hclean, hviolates⟩ := parseWith_eq_error_iff.mp herror
    obtain ⟨read, hread, t, hdepth, hstops⟩ := violates_expression_iff.mp hviolates
    exact ⟨hclean, t, read, v, hdepth, hstops, hread, rfl⟩
  · rintro ⟨hclean, t, read, v, hdepth, hstops, hread, rfl⟩
    have hviolates := violates_expression_iff.mpr ⟨read, hread, t, hdepth, hstops⟩
    exact ⟨parseWith_eq_error_iff.mpr ⟨hclean, hviolates⟩, kind_eq_meaning_iff.mpr ⟨v, rfl⟩⟩

/-! ## A text that breaks the grammar -/

/-- There is no parenthesis in a column. -/
theorem ColumnPhrase.count_kinds (c : ColumnPhrase) {k : Kind}
    (hk : k = .leftParen ∨ k = .rightParen) : c.kinds.count k = 0 := by
  rw [List.count_eq_zero]
  rcases hk with rfl | rfl <;> cases c <;> simp [kinds, segmentKinds]

/-- No literal is a parenthesis. -/
theorem LiteralPhrase.kind_ne (v : LiteralPhrase) {k : Kind}
    (hk : k = .leftParen ∨ k = .rightParen) : v.kind ≠ k := by
  rcases hk with rfl | rfl <;> cases v <;> simp [kind]

/-- There is no parenthesis between the literals of a list. -/
theorem LiteralPhrase.count_listKinds (first : LiteralPhrase) (more : List LiteralPhrase) {k : Kind}
    (hk : k = .leftParen ∨ k = .rightParen) : (listKinds first more).count k = 0 := by
  have hcomma : .comma ≠ k := by rcases hk with rfl | rfl <;> simp
  rw [List.count_eq_zero, listKinds, List.mem_cons, List.mem_flatMap]
  rintro (hfirst | ⟨v, -, hmem⟩)
  · exact first.kind_ne hk hfirst.symm
  · rcases List.mem_cons.mp hmem with h | h
    · exact hcomma h.symm
    · exact v.kind_ne hk (List.mem_singleton.mp h).symm

/-- In the tokens of a leaf parentheses are balanced. -/
theorem Leaf.count_parens (l : Leaf) : l.kinds.count .leftParen = l.kinds.count .rightParen := by
  cases l with
  | const b => rfl
  | test c op => cases op <;> simp [kinds, testKinds, c.count_kinds]
  | member c op first more =>
    cases op <;> simp [kinds, membershipKinds, c.count_kinds, LiteralPhrase.count_listKinds]
  | like c negated raw => cases negated <;> simp [kinds, likeKinds, c.count_kinds]
  | compare c op value => simp [kinds, c.count_kinds, value.kind_ne]
  | reflected value op c distinct => simp [kinds, c.count_kinds, value.kind_ne]

mutual

/-- In the tokens of a tree parentheses are balanced. -/
theorem Phrase.count_parens {s : Symbol} :
    (t : Phrase s) → t.kinds.count .leftParen = t.kinds.count .rightParen
  | .leaf l => l.count_parens
  | .not t => by simp [Phrase.kinds, t.count_parens]
  | .group t => by simp [Phrase.kinds, t.count_parens]
  | .chain first more => by
    simp [Phrase.kinds, first.count_parens, more.count_parens]

/-- The operands of a repetition open and close equally many parentheses. -/
theorem Rest.count_parens {op : Connective} :
    (t : Rest op) → t.kinds.count .leftParen = t.kinds.count .rightParen
  | .done => rfl
  | .next t more => by
    simp [Rest.kinds, t.count_parens, more.count_parens]

end

/-- An error in the meaning does not say that the text keeps the grammar: in `a IN (1, 'x'))` the
list is refused before its second closing parenthesis is looked at. -/
theorem not_forall_meaning_error :
    ¬ ∀ config text e, parseWith config text = .error e → e.kind = .meaning →
      ∃ t : Phrase (.chain .or), t.kinds = (TokenStream.ofText text).kinds := by
  intro h
  have herror : parseWith ⟨256⟩ "a IN (1, 'x'))" =
      .error (.invalidSet (.mixedTypes .integer .string)) := by
    rw [← failure?_eq_some]
    decide +kernel
  obtain ⟨t, hkinds⟩ := h _ _ _ herror rfl
  have hcount := t.count_parens
  rw [hkinds] at hcount
  revert hcount
  decide +kernel

end RowFilter.Grammar
