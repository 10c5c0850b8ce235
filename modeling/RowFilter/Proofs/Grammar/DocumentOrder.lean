import RowFilter.Proofs.Grammar.Exactness
import RowFilter.Proofs.Predicate.Visitor
import RowFilter.Proofs.Predicate.WellFormed

/-!
# Columns in the order of the text

Which tokens of a filter name a column can be told from the tokens next to them. A word begins a
dotted name unless a point stands before it, and a name in double quotes is a column wherever it
stands. Single-quoted text is a column if it is tested, or compared with a literal: the literal may
follow it, or stand before it if it is no text itself. The columns at these places are the columns
of the filter that is read, from left to right and each as often as it is written, and a visitor is
told of them in this order.
-/

set_option autoImplicit false

namespace RowFilter

namespace Grammar

/-! ## Places of columns -/

/-- The words that go on with a dotted name. -/
def dottedWords : List Kind → List String
  | .dot :: .word name :: ks => name :: dottedWords ks
  | _ => []

/-- The nearest token before is a point. -/
def afterDot : List Kind → Bool
  | .dot :: _ => true
  | _ => false

/-- The tokens after some text ask something of it as a column: a test, or a comparison with a
literal. -/
def asksLeft : List Kind → Bool
  | .keyword .is :: _ => true
  | .keyword .not :: _ => true
  | .keyword .inSet :: _ => true
  | .keyword .like :: _ => true
  | .comparison _ :: k :: _ => k.literal?.isSome
  | _ => false

/-- The tokens before some text, the nearest one first, compare a literal with it that is no text
itself. -/
def asksRight : List Kind → Bool
  | .comparison _ :: .string _ :: _ => false
  | .comparison _ :: k :: _ => k.literal?.isSome
  | _ => false

/-- The column that begins with a token, between the tokens before it, the nearest one first, and
those after it. -/
def columnAt (before : List Kind) (k : Kind) (after : List Kind) : Option Column :=
  match k with
  | .word first =>
    if afterDot before then none else some ⟨Text.join "." (first :: dottedWords after)⟩
  | .quotedName name => some ⟨name⟩
  | .string raw =>
    if asksLeft after || asksRight before then some ⟨Kind.unescaped raw⟩ else none
  | _ => none

/-- The columns that begin at the tokens, after the tokens before them, the nearest one first. -/
def columnsFrom (before : List Kind) : List Kind → List Column
  | [] => []
  | k :: after => (columnAt before k after).toList ++ columnsFrom (k :: before) after

/-- Between what stands before and after them, the tokens hold these columns. -/
def Holds (before ks after : List Kind) (cs : List Column) : Prop :=
  columnsFrom before (ks ++ after) = cs ++ columnsFrom (ks.reverse ++ before) after

/-- A token of this kind can name a column. -/
def isName : Kind → Bool
  | .word _ => true
  | .quotedName _ => true
  | .string _ => true
  | _ => false

section

variable {before ks ls after : List Kind} {cs ds : List Column}

/-- Tokens side by side hold the columns of the first ones and then those of the second ones. -/
theorem Holds.append (h : Holds before ks (ls ++ after) cs)
    (h' : Holds (ks.reverse ++ before) ls after ds) : Holds before (ks ++ ls) after (cs ++ ds) := by
  calc columnsFrom before (ks ++ ls ++ after)
      = columnsFrom before (ks ++ (ls ++ after)) := by rw [List.append_assoc]
    _ = cs ++ columnsFrom (ks.reverse ++ before) (ls ++ after) := h
    _ = cs ++ (ds ++ columnsFrom (ls.reverse ++ (ks.reverse ++ before)) after) := by rw [h']
    _ = cs ++ ds ++ columnsFrom ((ks ++ ls).reverse ++ before) after := by
        rw [List.reverse_append, List.append_assoc, List.append_assoc]

/-- A single token holds the column that begins at it, if there is one. -/
theorem holds_singleton (before : List Kind) (k : Kind) (after : List Kind) :
    Holds before [k] after (columnAt before k after).toList := rfl

/-- At a token that can name no column none begins. -/
theorem columnAt_eq_none {k : Kind} (h : isName k = false) : columnAt before k after = none := by
  cases k with
  | word _ | quotedName _ | string _ => contradiction
  | _ => rfl

/-- A token in front that can name no column adds none. -/
theorem Holds.cons {k : Kind} (hk : isName k = false) (h : Holds (k :: before) ks after cs) :
    Holds before (k :: ks) after cs := by
  have hfirst := holds_singleton before k (ks ++ after)
  rw [columnAt_eq_none hk] at hfirst
  exact hfirst.append h

/-- Tokens that can name no column hold none. -/
theorem holds_of_not_isName (h : ∀ k ∈ ks, isName k = false) : Holds before ks after [] := by
  induction ks generalizing before with
  | nil => rfl
  | cons k ks ih =>
    obtain ⟨hk, hks⟩ := List.forall_mem_cons.mp h
    exact (ih hks).cons hk

end

/-! ## Columns and literals -/

/-- The words after the first one of a path are found again, if no dotted word follows them. -/
theorem dottedWords_append (more : List String) {after : List Kind}
    (hafter : dottedWords after = []) :
    dottedWords (ColumnPhrase.segmentKinds more ++ after) = more := by
  induction more with
  | nil => exact hafter
  | cons segment more ih => exact congrArg (segment :: ·) ih

/-- The words after points begin no column of their own. -/
theorem holds_segmentKinds (before : List Kind) (more : List String) (after : List Kind) :
    Holds before (ColumnPhrase.segmentKinds more) after [] := by
  induction more generalizing before with
  | nil => rfl
  | cons segment more ih =>
    have hsegment : Holds (.dot :: before) [.word segment]
        (ColumnPhrase.segmentKinds more ++ after) [] := rfl
    exact (hsegment.append (ih _)).cons rfl

/-- The tokens of a column hold that column. Single-quoted text must be asked for. -/
theorem ColumnPhrase.holds {before after : List Kind} (c : ColumnPhrase)
    (hbefore : afterDot before = false) (hafter : dottedWords after = [])
    (htext : c.isText = true → (asksLeft after || asksRight before) = true) :
    Holds before c.kinds after [c.column] := by
  cases c with
  | path first more =>
    have hfirst := holds_singleton before (.word first) (segmentKinds more ++ after)
    rw [columnAt, hbefore, dottedWords_append more hafter] at hfirst
    exact hfirst.append (holds_segmentKinds _ more after)
  | quoted name => rfl
  | text raw =>
    have hraw := holds_singleton before (.string raw) after
    rwa [columnAt, htext rfl] at hraw

/-- A column that is tested, or compared with a literal, is held by its tokens. -/
theorem ColumnPhrase.holds_of_asksLeft {before after : List Kind} (c : ColumnPhrase)
    (hbefore : afterDot before = false) (hafter : asksLeft after = true) :
    Holds before c.kinds after [c.column] := by
  apply c.holds hbefore
  · cases after with
    | nil => rfl
    | cons k ks => cases k <;> first | rfl | contradiction
  · intro _
    rw [hafter, Bool.true_or]

/-- A literal holds no column. Single-quoted text must not be asked for. -/
theorem LiteralPhrase.holds {before after : List Kind} (v : LiteralPhrase)
    (htext : v.isText = true → (asksLeft after || asksRight before) = false) :
    Holds before [v.kind] after [] := by
  cases v with
  | text raw =>
    have hraw := holds_singleton before (.string raw) after
    rwa [columnAt, htext rfl] at hraw
  | _ => rfl

/-- A comparison with a literal asks for what stands before it. -/
theorem asksLeft_comparison (op : Comparison) (v : LiteralPhrase) (after : List Kind) :
    asksLeft (.comparison op :: v.kind :: after) = true := by
  cases v <;> rfl

/-- Whatever ends a column is no literal that could be compared with text after it. -/
theorem asksRight_column (op : Comparison) (c : ColumnPhrase) (before : List Kind) :
    asksRight (.comparison op :: (c.kinds.reverse ++ before)) = false := by
  cases c with
  | path first more =>
    rcases more.eq_nil_or_concat with rfl | ⟨more, segment, rfl⟩
    · rfl
    · have hlast : (ColumnPhrase.path first (more.concat segment)).kinds.reverse =
          .word segment :: .dot :: (ColumnPhrase.path first more).kinds.reverse := by
        simp [ColumnPhrase.kinds, ColumnPhrase.segmentKinds]
      rw [hlast]
      rfl
  | quoted name => rfl
  | text raw => rfl

/-- A comparison with a column asks for the text before it only if that column is text too. -/
theorem asksLeft_column (op : Comparison) (c : ColumnPhrase) (after : List Kind) :
    asksLeft (.comparison op :: (c.kinds ++ after)) = c.isText := by
  cases c <;> rfl

/-- A literal that is compared asks for the text after it, unless it is text itself. -/
theorem asksRight_comparison (op : Comparison) (v : LiteralPhrase) (before : List Kind) :
    asksRight (.comparison op :: v.kind :: before) = !v.isText := by
  cases v <;> rfl

/-! ## Leaves -/

/-- Nothing before the tokens asks for a column. -/
structure Opens (before : List Kind) : Prop where
  afterDot : afterDot before = false
  asksRight : asksRight before = false

/-- The beginning of a filter asks for nothing. -/
theorem opens_nil : Opens [] := ⟨rfl, rfl⟩

/-- A parenthesis asks for nothing in the group that it opens. -/
theorem opens_leftParen (before : List Kind) : Opens (.leftParen :: before) := ⟨rfl, rfl⟩

/-- A keyword asks for nothing in the operand after it. -/
theorem opens_keyword (word : Keyword) (before : List Kind) : Opens (.keyword word :: before) :=
  ⟨rfl, rfl⟩

/-- What follows an operand does not go on with a dotted name. -/
theorem Symbol.dottedWords_of_ends {after : List Kind} (h : Symbol.operand.Ends after) :
    dottedWords after = [] := by
  cases after with
  | nil => rfl
  | cons k ks => rcases h k rfl with rfl | ⟨op, rfl⟩ <;> rfl

/-- What follows an operand does not ask for the text at its end. -/
theorem Symbol.asksLeft_of_ends {after : List Kind} (h : Symbol.operand.Ends after) :
    asksLeft after = false := by
  cases after with
  | nil => rfl
  | cons k ks => rcases h k rfl with rfl | ⟨op, rfl⟩ <;> rfl

/-- The column that a leaf asks. -/
def Leaf.column? : Leaf → Option Column
  | const _ => none
  | test c _ => some c.column
  | member c _ _ _ => some c.column
  | like c _ _ => some c.column
  | compare c _ _ => some c.column
  | reflected _ _ c _ => some c.column

/-- In a list every text is a literal. -/
theorem holds_listKinds {before : List Kind} (hbefore : asksRight before = false)
    (first : LiteralPhrase) (more : List LiteralPhrase) (after : List Kind) :
    Holds before (LiteralPhrase.listKinds first more) (.rightParen :: after) [] := by
  induction more generalizing before first with
  | nil => exact first.holds fun _ => by rw [hbefore]; rfl
  | cons v more ih =>
    have hfirst : Holds before [first.kind]
        (.comma :: (LiteralPhrase.listKinds v more ++ .rightParen :: after)) [] :=
      first.holds fun _ => by rw [hbefore]; rfl
    exact hfirst.append ((ih rfl v).cons rfl)

/-- The tokens of a leaf hold its column. -/
theorem Leaf.holds {before after : List Kind} (l : Leaf) (hbefore : Opens before)
    (hafter : Symbol.operand.Ends after) : Holds before l.kinds after l.column?.toList := by
  cases l with
  | const b => rfl
  | test c op =>
    have hcolumn : Holds before c.kinds (testKinds op ++ after) [c.column] :=
      c.holds_of_asksLeft hbefore.afterDot (by cases op <;> rfl)
    exact hcolumn.append (holds_of_not_isName (by cases op <;> decide))
  | member c op first more =>
    have hcolumn : Holds before c.kinds
        (membershipKinds op ++
          (.leftParen :: LiteralPhrase.listKinds first more ++ ([.rightParen] ++ after)))
        [c.column] :=
      c.holds_of_asksLeft hbefore.afterDot (by cases op <;> rfl)
    have hop := hcolumn.append (holds_of_not_isName (by cases op <;> decide))
    have hlist := hop.append ((holds_listKinds rfl first more after).cons rfl)
    exact hlist.append rfl
  | like c negated raw =>
    have hcolumn : Holds before c.kinds (likeKinds negated ++ ([.string raw] ++ after))
        [c.column] :=
      c.holds_of_asksLeft hbefore.afterDot (by cases negated <;> rfl)
    have hlike := hcolumn.append (holds_of_not_isName (by cases negated <;> decide))
    -- The pattern stands after `LIKE`, which compares nothing.
    refine hlike.append (LiteralPhrase.holds (.text raw) fun _ => ?_)
    rw [Symbol.asksLeft_of_ends hafter, List.reverse_append, List.append_assoc]
    cases negated <;> rfl
  | compare c op v =>
    have hcolumn : Holds before c.kinds ([.comparison op, v.kind] ++ after) [c.column] :=
      c.holds_of_asksLeft hbefore.afterDot (asksLeft_comparison op v after)
    refine hcolumn.append (Holds.cons rfl (v.holds fun _ => ?_))
    rw [Symbol.asksLeft_of_ends hafter, asksRight_column]
    rfl
  | reflected v op c distinct =>
    -- At most one side is text, so each side is told by the other one.
    have hliteral : Holds before [v.kind] (.comparison op :: (c.kinds ++ after)) [] :=
      v.holds fun hv => by
        rw [asksLeft_column, hbefore.asksRight, Bool.or_false]
        rwa [hv, Bool.true_and] at distinct
    have hcolumn : Holds (.comparison op :: v.kind :: before) c.kinds after [c.column] :=
      c.holds rfl (Symbol.dottedWords_of_ends hafter) fun hc => by
        rw [hc, Bool.and_true] at distinct
        rw [asksRight_comparison, distinct, Bool.not_false, Bool.or_true]
    exact hliteral.append (hcolumn.cons rfl)

/-! ## Trees -/

/-- The columns that the leaves of a tree ask, from left to right. -/
def Phrase.columns {s : Symbol} (t : Phrase s) : List Column :=
  t.leaves.filterMap Leaf.column?

/-- The columns that the leaves of a repetition ask, from left to right. -/
def Rest.columns {op : Connective} (t : Rest op) : List Column :=
  t.leaves.filterMap Leaf.column?

/-- A tree of one leaf has the column of the leaf. -/
theorem Phrase.columns_leaf (l : Leaf) : (Phrase.leaf l).columns = l.column?.toList := by
  rw [Phrase.columns, Phrase.leaves, List.filterMap_eq_flatMap_toList, List.flatMap_singleton]

/-- The columns of a chain are those of its first operand and then those of the others. -/
theorem Phrase.columns_chain {op : Connective} (first : Phrase (.below op)) (more : Rest op) :
    (Phrase.chain first more).columns = first.columns ++ more.columns :=
  List.filterMap_append

/-- The columns of a repetition are those of its operands from left to right. -/
theorem Rest.columns_next {op : Connective} (t : Phrase (.below op)) (more : Rest op) :
    (Rest.next t more).columns = t.columns ++ more.columns :=
  List.filterMap_append

mutual

/-- The tokens of a tree hold the columns of its leaves. The induction carries what may stand on
both sides of a phrase; a repetition begins with a connective, which opens its operand. -/
theorem Phrase.holds {s : Symbol} {before after : List Kind} :
    (t : Phrase s) → Opens before → s.Ends after → Holds before t.kinds after t.columns
  | .leaf l, hbefore, hafter => by
    rw [Phrase.columns_leaf]
    exact l.holds hbefore hafter
  | .not t, _, hafter => (t.holds (opens_keyword .not before) hafter).cons rfl
  | .group t, _, _ => by
    have hinside := t.holds (opens_leftParen before) (Symbol.ends_rightParen (.chain .or) after)
    have hgroup : Holds _ (t.kinds ++ [.rightParen]) after (t.columns ++ []) :=
      hinside.append rfl
    rw [List.append_nil] at hgroup
    exact hgroup.cons rfl
  | .chain first more, hbefore, hafter => by
    rw [Phrase.columns_chain]
    exact (first.holds hbefore (more.ends hafter)).append (more.holds hafter)

/-- The tokens of a repetition hold the columns of its leaves. -/
theorem Rest.holds {op : Connective} {before after : List Kind} :
    (t : Rest op) → (Symbol.chain op).Ends after → Holds before t.kinds after t.columns
  | .done, _ => rfl
  | .next t more, hafter => by
    rw [Rest.columns_next]
    have ht := t.holds (opens_keyword (.connective op) before) (more.ends hafter)
    exact (ht.append (more.holds hafter)).cons rfl

end

/-- What is listed leaf by leaf is listed alike whether or not the operands make up a chain. -/
theorem leafWise_joined {α : Type} {f : Predicate → List α} (hf : Predicate.LeafWise f)
    (op : Connective) (p : Predicate) (ps : List Predicate) :
    f (joined op p ps) = f p ++ ps.flatMap f := by
  cases ps with
  | nil => exact (List.append_nil _).symm
  | cons q qs => exact hf.chain op (p :: q :: qs)

section

variable {α : Type} {f : Predicate → List α} {g : Leaf → List α}

mutual

/-- What is listed leaf by leaf in a predicate has the order of the leaves of the tree. -/
theorem Phrase.leafWise_meaning (hf : Predicate.LeafWise f)
    (hleaf : ∀ l q, l.meaning = .ok q → f q = g l) {s : Symbol} :
    {t : Phrase s} → {p : Predicate} → t.meaning = .ok p → f p = t.leaves.flatMap g
  | .leaf l, p, h => by
    rw [Phrase.leaves, List.flatMap_singleton]
    exact hleaf l p h
  | .not t, _, h => by
    obtain ⟨q, hq, hp⟩ := bind_eq_ok.mp h
    cases hp
    exact (hf.not q).trans (t.leafWise_meaning hf hleaf hq)
  | .group t, _, h => t.leafWise_meaning hf hleaf h
  | .chain first more, _, h => by
    obtain ⟨q, hq, hrest⟩ := bind_eq_ok.mp h
    obtain ⟨qs, hqs, hp⟩ := bind_eq_ok.mp hrest
    cases hp
    rw [leafWise_joined hf, first.leafWise_meaning hf hleaf hq, more.leafWise_meaning hf hleaf hqs,
      Phrase.leaves, List.flatMap_append]

/-- The same for the operands of a repetition. -/
theorem Rest.leafWise_meaning (hf : Predicate.LeafWise f)
    (hleaf : ∀ l q, l.meaning = .ok q → f q = g l) {op : Connective} :
    {t : Rest op} → {ps : List Predicate} → t.meaning = .ok ps →
      ps.flatMap f = t.leaves.flatMap g
  | .done, _, h => by
    cases h
    rfl
  | .next t more, _, h => by
    obtain ⟨q, hq, hrest⟩ := bind_eq_ok.mp h
    obtain ⟨qs, hqs, hp⟩ := bind_eq_ok.mp hrest
    cases hp
    rw [List.flatMap_cons, t.leafWise_meaning hf hleaf hq, more.leafWise_meaning hf hleaf hqs,
      Rest.leaves, List.flatMap_append]

end

end

/-- The predicate of a pattern asks the column of the pattern. -/
theorem columns_toPredicate (negated : Bool) (c : Column) (pattern : Pattern) :
    (pattern.toPredicate negated c).columns = [c] := by
  cases pattern <;> rfl

/-- The predicate of a leaf has the column that the leaf asks. -/
theorem Leaf.columns_meaning {l : Leaf} {p : Predicate} (h : l.meaning = .ok p) :
    p.columns = l.column?.toList := by
  cases l with
  | member c op first more =>
    obtain ⟨s, -, rfl⟩ := Predicate.ofMembers_eq_ok_iff.mp (mapError_eq_ok.mp h)
    rfl
  | like c negated raw =>
    rw [Leaf.meaning] at h
    split at h
    · cases h
      exact columns_toPredicate negated c.column _
    · contradiction
  | _ =>
    cases h
    rfl

/-- The predicate of a tree has the columns of its leaves. -/
theorem Phrase.columns_meaning {s : Symbol} {t : Phrase s} {p : Predicate}
    (h : t.meaning = .ok p) : p.columns = t.columns := by
  rw [Phrase.columns, List.filterMap_eq_flatMap_toList]
  exact t.leafWise_meaning Predicate.leafWise_columns (fun l q hl => l.columns_meaning hl) h

/-- The columns at the tokens of a tree are those of its leaves. -/
theorem columnsFrom_kinds (t : Phrase (.chain .or)) : columnsFrom [] t.kinds = t.columns := by
  have hholds := t.holds opens_nil (Symbol.ends_nil (.chain .or))
  rw [Holds, List.append_nil] at hholds
  exact hholds.trans (List.append_nil _)

end Grammar

/-! ## Filters -/

/-- The columns that begin at the tokens of a stream. -/
def TokenStream.columns (s : TokenStream) : List Column :=
  Grammar.columnsFrom [] s.kinds

open Grammar

/-- The columns of a filter are those at its tokens, and those of the leaves in each of its trees.
-/
theorem columns_of_parseWith {config : Config} {text : String} {p : Predicate}
    (h : parseWith config text = .ok p) :
    (TokenStream.ofText text).columns = p.columns ∧
      ∀ t : Phrase (.chain .or), t.kinds = (TokenStream.ofText text).kinds →
        t.columns = p.columns := by
  obtain ⟨-, tree, hkinds, hread⟩ := parseWith_eq_ok_iff.mp h
  have htree (t : Phrase (.chain .or)) (ht : t.kinds = (TokenStream.ofText text).kinds) :
      t.columns = p.columns := by
    have htread : t.read config.maxDepth = .ok p := by
      rw [Phrase.read_eq_of_kinds_eq (ht.trans hkinds.symm), hread]
    exact (Phrase.columns_meaning (Phrase.read_eq_ok_iff.mp htread).2).symm
  refine ⟨?_, htree⟩
  rw [TokenStream.columns, ← hkinds, columnsFrom_kinds, htree tree hkinds]

namespace Predicate

/-- If the sets of a predicate are valid, the literals of each leaf ascend. -/
theorem ascending_leafLiterals {p : Predicate}
    (h : ∀ op c values, member op c values ∈ p.nodes → values.Valid) {q : Predicate}
    (hq : q ∈ p.leaves) : LiteralSet.Ascending q.leafLiterals := by
  have hnode : q ∈ p.nodes := (List.mem_filter.mp hq).1
  cases q with
  | compare op c v => exact List.pairwise_singleton _ v
  | member op c values => exact (h op c values hnode).ascending
  | _ => exact List.Pairwise.nil

/-- A visitor with hooks for columns and literals is told the parts of the leaves from left to
right: these are the columns of the predicate and the literals of each leaf, which ascend if the
sets are valid. A visitor that notes when it enters and leaves a predicate notes proper brackets,
one pair for each node in the order of the nodes. The columns of a filter that is read are those at
the tokens of its text, and those of any tree of these tokens. -/
theorem visit_documentOrder (p : Predicate) :
    (∀ (σ : Type) (onColumn : Column → σ → σ) (onLiteral : Literal → σ → σ) (s : σ),
      Visitor.visit { onColumn := onColumn, onLiteral := onLiteral } p s =
        p.heard.foldl (Event.tell onColumn onLiteral) s) ∧
    p.heard.filterMap Event.column? = p.columns ∧
    p.heard.filterMap Event.literal? = p.leaves.flatMap leafLiterals ∧
    ((∀ op c values, member op c values ∈ p.nodes → values.Valid) →
      ∀ q ∈ p.leaves, LiteralSet.Ascending q.leafLiterals) ∧
    Bracketed p.nodes (Visitor.tracer.visit p []) ∧
    (Visitor.tracer.visit p []).filterMap Event.entered? = p.nodes ∧
    ((Visitor.tracer.visit p []).filterMap Event.left?).Perm p.nodes ∧
    ∀ config text, parseWith config text = .ok p →
      (TokenStream.ofText text).columns = p.columns ∧
        ∀ t : Phrase (.chain .or), t.kinds = (TokenStream.ofText text).kinds →
          t.columns = p.columns := by
  have hbrackets := p.bracketed_visit_tracer
  refine ⟨fun σ onColumn onLiteral s => visit_hooks onColumn onLiteral p s, ?_, ?_,
    fun h q hq => ascending_leafLiterals h hq, hbrackets, hbrackets.entered, hbrackets.left,
    fun config text h => columns_of_parseWith h⟩
  · rw [filterMap_heard (fun _ => rfl) (fun _ => rfl)]
    exact p.visitedColumns_eq_columns
  · rw [filterMap_heard (fun _ => rfl) (fun _ => rfl)]
    exact p.visitedLiterals_eq_literals.trans p.literals_eq_leaves

/-- `'b' IS NULL OR NOT (5 < a.x AND "Q" IN (3, 1, 3)) AND 'a' = a.x` has a column as text, one on
the right side and one twice; the `'a'` is a literal. -/
theorem visit_documentOrder_reflected :
    let p : Predicate := .chain .or [.test .isNull ⟨"b"⟩,
      .chain .and
        [.not (.chain .and [.compare .greater ⟨"a.x"⟩ (.integer 5),
          .member .inSet ⟨"Q"⟩ ⟨[.integer 1, .integer 3], .integer⟩]),
          .compare .equal ⟨"a.x"⟩ (.string "a")]]
    let text := "'b' IS NULL OR NOT (5 < a.x AND \"Q\" IN (3, 1, 3)) AND 'a' = a.x"
    parseWith ⟨2⟩ text = .ok p ∧
      (TokenStream.ofText text).columns = [⟨"b"⟩, ⟨"a.x"⟩, ⟨"Q"⟩, ⟨"a.x"⟩] ∧
      (∀ q ∈ p.leaves, LiteralSet.Ascending q.leafLiterals) ∧
      Visitor.visit { onLiteral := fun v vs => vs ++ [v] } p [] =
        [.integer 5, .integer 1, .integer 3, .string "a"] := by
  intro p text
  let path : ColumnPhrase := .path "a" ["x"]
  let inner : Phrase (.chain .or) :=
    .chain (.chain (.leaf (.reflected (.integer 5) .less path rfl))
      (.next (.leaf (.member (.quoted "Q") .inSet (.integer 3) [.integer 1, .integer 3])) .done))
      .done
  let tree : Phrase (.chain .or) :=
    .chain (.chain (.leaf (.test (.text "b") .isNull)) .done)
      (.next (.chain (.not (.group inner))
        (.next (.leaf (.reflected (.text "a") .equal path rfl)) .done)) .done)
  have hclean : (TokenStream.ofText text).Clean := by
    unfold TokenStream.Clean
    decide +kernel
  have hkinds : tree.kinds = (TokenStream.ofText text).kinds := by
    decide +kernel
  have hparse : parseWith ⟨2⟩ text = .ok p :=
    parseWith_eq_ok_iff.mpr ⟨hclean, tree, hkinds, rfl⟩
  have hvalid : ∀ op c values, Predicate.member op c values ∈ p.nodes → values.Valid := by
    intro op c values hnode
    simp only [p, nodes, nodesAll, List.mem_cons, List.mem_append, List.not_mem_nil,
      reduceCtorEq, false_or, or_false, member.injEq] at hnode
    obtain ⟨-, -, rfl⟩ := hnode
    exact @LiteralSet.valid_of_ofList [.integer 3, .integer 1, .integer 3] _ rfl
  obtain ⟨hvisit, -, -, hascending, -, -, -, htext⟩ := visit_documentOrder p
  exact ⟨hparse, (htext ⟨2⟩ text hparse).1, hascending hvalid, hvisit _ _ _ []⟩

end Predicate

end RowFilter
