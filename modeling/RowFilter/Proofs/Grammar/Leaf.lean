import RowFilter.Parser.Atom
import RowFilter.Proofs.Literal.Set

/-!
# The leaves of the grammar

The grammar is given by its parse trees: the constructors of a type are the productions of a symbol,
`kinds` is the list of token kinds that a tree derives, and `meaning` is what it stands for. This
module holds the trees of columns, literals and leaves. None of it refers to a parser.

A leaf may keep the grammar and still stand for no predicate: a list whose literals have different
types and a pattern with a misplaced wildcard are violations.
-/

set_option autoImplicit false

namespace RowFilter.Grammar

/-- The ways to write a column: words with dots between them, a name in double quotes, or
single-quoted text. -/
inductive ColumnPhrase where
  | path (first : String) (more : List String)
  | quoted (name : String)
  | text (raw : String)

namespace ColumnPhrase

/-- The kinds of the segments of a path after the first one. -/
def segmentKinds (more : List String) : List Kind :=
  more.flatMap fun segment => [.dot, .word segment]

/-- The token kinds of a column. -/
def kinds : ColumnPhrase → List Kind
  | path first more => .word first :: segmentKinds more
  | quoted name => [.quotedName name]
  | text raw => [.string raw]

/-- The column that is written. -/
def column : ColumnPhrase → Column
  | path first more => ⟨Text.join "." (first :: more)⟩
  | quoted name => ⟨name⟩
  | text raw => ⟨Kind.unescaped raw⟩

/-- The column is written as single-quoted text. -/
def isText : ColumnPhrase → Bool
  | text _ => true
  | _ => false

/-- A column has at least one token. -/
theorem kinds_ne_nil (c : ColumnPhrase) : c.kinds ≠ [] := by
  cases c <;> simp [kinds]

/-- The tokens of a column are valid. -/
theorem error?_of_mem_kinds (c : ColumnPhrase) : ∀ k ∈ c.kinds, k.error? = none := by
  cases c with
  | path first more =>
    refine List.forall_mem_cons.mpr ⟨rfl, ?_⟩
    rw [segmentKinds, List.forall_mem_flatMap]
    intro segment _
    simp [Kind.error?]
  | quoted name => exact List.forall_mem_singleton.mpr rfl
  | text raw => exact List.forall_mem_singleton.mpr rfl

end ColumnPhrase

/-- The ways to write a literal, each of them one token. -/
inductive LiteralPhrase where
  | boolean (value : Bool)
  | integer (value : Int64)
  | decimal (value : Decimal)
  | text (raw : String)

namespace LiteralPhrase

/-- The token kind of a literal. -/
def kind : LiteralPhrase → Kind
  | boolean b => .keyword (.bool b)
  | integer n => .integer n
  | decimal d => .decimal d
  | text raw => .string raw

/-- The literal that is written. -/
def value : LiteralPhrase → Literal
  | boolean b => .boolean b
  | integer n => .integer n
  | decimal d => .decimal d
  | text raw => .string (Kind.unescaped raw)

/-- The literal is written as single-quoted text. -/
def isText : LiteralPhrase → Bool
  | text _ => true
  | _ => false

/-- The token kinds of a list of literals with commas between them. -/
def listKinds (first : LiteralPhrase) (more : List LiteralPhrase) : List Kind :=
  first.kind :: more.flatMap fun v => [.comma, v.kind]

/-- The token of a literal is valid. -/
theorem error?_kind (v : LiteralPhrase) : v.kind.error? = none := by
  cases v <;> rfl

/-- The tokens of a list of literals are valid. -/
theorem error?_of_mem_listKinds (first : LiteralPhrase) (more : List LiteralPhrase) :
    ∀ k ∈ listKinds first more, k.error? = none := by
  refine List.forall_mem_cons.mpr ⟨first.error?_kind, ?_⟩
  rw [List.forall_mem_flatMap]
  intro v _
  exact List.forall_mem_cons.mpr ⟨rfl, List.forall_mem_singleton.mpr v.error?_kind⟩

end LiteralPhrase

/-- The token kinds after the column in a column test. -/
def testKinds : ColumnTest → List Kind
  | .isNull => [.keyword .is, .keyword .null]
  | .notNull => [.keyword .is, .keyword .not, .keyword .null]
  | .isNaN => [.keyword .is, .keyword .nan]
  | .notNaN => [.keyword .is, .keyword .not, .keyword .nan]

/-- The token kinds between the column and the list in a membership test. -/
def membershipKinds : Membership → List Kind
  | .inSet => [.keyword .inSet]
  | .notInSet => [.keyword .not, .keyword .inSet]

/-- The token kinds between the column and the pattern in a `LIKE` test. -/
def likeKinds : Bool → List Kind
  | false => [.keyword .like]
  | true => [.keyword .not, .keyword .like]

/-- The comparison that says the same of a column and a literal when they change sides. The
parser's own table is not used: that it is the same one is a theorem. -/
def mirrored : Comparison → Comparison
  | .equal => .equal
  | .notEqual => .notEqual
  | .less => .greater
  | .lessOrEqual => .greaterOrEqual
  | .greater => .less
  | .greaterOrEqual => .lessOrEqual

/-- The parser turns a comparison round as the grammar says. -/
theorem flipped_eq_mirrored (op : Comparison) : op.flipped = mirrored op := by
  cases op <;> rfl

/-- The ways to write a leaf. A comparison may begin with its literal, unless both sides are
single-quoted text: then the left side is the column. -/
inductive Leaf where
  /-- `TRUE` or `FALSE`. -/
  | const (value : Bool)
  /-- `Col IS [NOT] NULL` or `Col IS [NOT] NAN`. -/
  | test (column : ColumnPhrase) (op : ColumnTest)
  /-- `Col [NOT] IN (Lit, ...)`. -/
  | member (column : ColumnPhrase) (op : Membership) (first : LiteralPhrase)
    (more : List LiteralPhrase)
  /-- `Col [NOT] LIKE Str`. -/
  | like (column : ColumnPhrase) (negated : Bool) (raw : String)
  /-- `Col op Lit`. -/
  | compare (column : ColumnPhrase) (op : Comparison) (value : LiteralPhrase)
  /-- `Lit op Col`. -/
  | reflected (value : LiteralPhrase) (op : Comparison) (column : ColumnPhrase)
    (distinct : (value.isText && column.isText) = false)

/-- Why a leaf that keeps the grammar stands for no predicate. -/
inductive Violation where
  /-- The literals in parentheses make up no set. -/
  | list (cause : TypeError)
  /-- A pattern has a wildcard before its end. -/
  | pattern (raw : String)

namespace Violation

/-- The fault with which a violation is reported. -/
def fault : Violation → Fault
  | list cause => .invalidSet cause
  | pattern raw => .invalidPattern raw

/-- A violation is never reported as an unexpected token, so no parser tries again after it. -/
theorem fault_ne_unexpected (v : Violation) (expected : Expected) :
    v.fault ≠ .unexpected expected := by
  cases v <;> simp [fault]

end Violation

namespace Leaf

/-- The token kinds of a leaf. -/
def kinds : Leaf → List Kind
  | const b => [.keyword (.bool b)]
  | test column op => column.kinds ++ testKinds op
  | member column op first more =>
    column.kinds ++ membershipKinds op ++
      .leftParen :: LiteralPhrase.listKinds first more ++ [.rightParen]
  | like column negated raw => column.kinds ++ likeKinds negated ++ [.string raw]
  | compare column op value => column.kinds ++ [.comparison op, value.kind]
  | reflected value op column _ => value.kind :: .comparison op :: column.kinds

/-- A list has literals of one type, and a pattern has no wildcard but at its end. -/
def Sound : Leaf → Prop
  | member _ _ first more => ∀ v ∈ more, v.value.type = first.value.type
  | like _ _ raw => (Pattern.ofRaw? raw.toList).isSome
  | _ => True

/-- The predicate that a leaf stands for, or its violation. A reflected comparison is kept with its
sides exchanged. -/
def meaning : Leaf → Except Violation Predicate
  | const b => .ok (.const b)
  | test column op => .ok (.test op column.column)
  | member column op first more =>
    (Predicate.ofMembers op column.column (first.value :: more.map LiteralPhrase.value)).mapError
      .list
  | like column negated raw =>
    match Pattern.ofRaw? raw.toList with
    | some pattern => .ok (pattern.toPredicate negated column.column)
    | none => .error (.pattern raw)
  | compare column op value => .ok (.compare op column.column value.value)
  | reflected value op column _ => .ok (.compare (mirrored op) column.column value.value)

/-- What a leaf is read as: a violation is a fault. -/
def read (l : Leaf) : Except Fault Predicate :=
  l.meaning.mapError Violation.fault

/-- The pattern that is understood when a leaf is read. -/
def log : Leaf → List LoweredPattern
  | like _ _ raw => ((Pattern.ofRaw? raw.toList).map (LoweredPattern.mk raw)).toList
  | _ => []

/-- A leaf has at least one token. -/
theorem kinds_ne_nil (l : Leaf) : l.kinds ≠ [] := by
  cases l <;> simp [kinds, ColumnPhrase.kinds_ne_nil]

/-- The tokens of a leaf are valid. -/
theorem error?_of_mem_kinds (l : Leaf) : ∀ k ∈ l.kinds, k.error? = none := by
  cases l with
  | const b => exact List.forall_mem_singleton.mpr rfl
  | test c op =>
    refine List.forall_mem_append.mpr ⟨c.error?_of_mem_kinds, ?_⟩
    cases op <;> decide
  | member c op first more =>
    simp only [kinds, List.forall_mem_append, List.forall_mem_cons]
    refine ⟨⟨⟨c.error?_of_mem_kinds, ?_⟩, rfl, LiteralPhrase.error?_of_mem_listKinds first more⟩,
      rfl, by simp⟩
    cases op <;> decide
  | like c negated raw =>
    simp only [kinds, List.forall_mem_append, List.forall_mem_cons]
    refine ⟨⟨c.error?_of_mem_kinds, ?_⟩, rfl, by simp⟩
    cases negated <;> decide
  | compare c op v =>
    simp only [kinds, List.forall_mem_append, List.forall_mem_cons]
    exact ⟨c.error?_of_mem_kinds, rfl, v.error?_kind, by simp⟩
  | reflected v op c distinct =>
    simp only [kinds, List.forall_mem_cons]
    exact ⟨v.error?_kind, rfl, c.error?_of_mem_kinds⟩

/-- A leaf stands for a predicate exactly if its list or its pattern is sound. -/
theorem sound_iff (l : Leaf) : l.Sound ↔ ∃ p, l.meaning = .ok p := by
  cases l with
  | const b => simp [Sound, meaning]
  | test c op => simp [Sound, meaning]
  | member c op first more =>
    have hset := @LiteralSet.exists_ofList_iff first.value (more.map LiteralPhrase.value)
    rw [List.forall_mem_map] at hset
    rw [Sound, ← hset, meaning, Predicate.ofMembers]
    cases LiteralSet.ofList (first.value :: more.map LiteralPhrase.value) <;>
      simp [Except.map, Except.mapError]
  | like c negated raw =>
    rw [Sound, meaning]
    cases Pattern.ofRaw? raw.toList <;> simp
  | compare c op v => simp [Sound, meaning]
  | reflected v op c distinct => simp [Sound, meaning]

end Leaf

end RowFilter.Grammar
