import EntitySql.Condition.Printer
import EntitySql.Dialect.Postgres
import EntitySql.Proofs.Grammar.Follower
import EntitySql.Proofs.Grammar.Text
import EntitySql.Proofs.Lowering

/-! What the parts of a printed condition are read as: operands, references, and what makes single
comparisons and tests of them. Columns and placeholders are printed as they are, so their names must be
names of the grammar. -/

set_option autoImplicit false

namespace EntitySql

open Grammar

structure IsIdentifier (s : String) : Prop where
  nonempty : s ≠ ""
  word : s.toList.all isWordChar = true
  notKeyword : Keyword.ofText? s = none

structure Schema.IsPlain (schema : Schema) (scope : Option String) : Prop where
  column : ∀ m ∈ schema.columns.mappings, IsIdentifier m.column
  stored : ∀ m ∈ schema.columns.mappings, m.computed = none
  scope : ∀ tableAlias, scope = some tableAlias → tableAlias.toList.all isWordChar = true

structure Mapping.IsPlain (m : Mapping) (scope : Option String) : Prop where
  nonempty : m.column ≠ ""
  stored : m.computed = none
  reference : IsIdentifier (m.reference scope)

theorem Mapping.isPlain_of_identifier {m : Mapping} {scope : Option String} (column : IsIdentifier m.column)
    (stored : m.computed = none)
    (plain : ∀ tableAlias, scope = some tableAlias → tableAlias.toList.all isWordChar = true) :
    m.IsPlain scope := by
  refine ⟨column.nonempty, stored, ?_⟩
  cases qualified : scope with
  | none => exact column
  | some tableAlias =>
    have dot : '.' ∈ (tableAlias ++ "." ++ m.column).toList := by simp
    refine ⟨?_, ?_, ofText?_of_dot dot⟩
    · intro empty
      have none : '.' ∈ "".toList := empty ▸ dot
      simp at none
    · have separator : ".".toList.all isWordChar = true := by decide
      rw [Mapping.reference, String.toList_append, String.toList_append, List.all_append,
        List.all_append, plain tableAlias qualified, separator, column.word]
      rfl

theorem Schema.IsPlain.mapping {schema : Schema} {scope : Option String} (plain : schema.IsPlain scope)
    {m : Mapping} (member : m ∈ schema.columns.mappings) : m.IsPlain scope :=
  Mapping.isPlain_of_identifier (plain.column m member) (plain.stored m member) plain.scope

theorem IsIdentifier.lexes {s : String} (plain : IsIdentifier s) : Lexes s [.name s] := by
  have read := lexes_word plain.nonempty plain.word
  rw [Token.ofWord, plain.notKeyword] at read
  exact read

def Operand.expr (o : Operand) (scope : Option String) : Expr :=
  let base : Expr := .name (o.mapping.reference scope)
  if o.keys.isEmpty then base
  else
    let path := String.ofList (Dialect.Postgres.arrayText (o.keys.map String.toList))
    let extracted : Expr := .binary "#>>" base (.literal path)
    match Dialect.postgres.castType o.kind with
    | some type => .cast extracted type
    | none => extracted

def Reference.expr : Reference → Expr
  | .null => .null
  | .parameter name true => .cast (.parameter name) "jsonb"
  | .parameter name false => .parameter name

def Term.expr (t : Term) (scope : Option String) : Expr :=
  match t with
  | .operand o => o.expr scope
  | .reference r => r.expr

def Condition.atomExpr (scope : Option String) : Condition → Expr
  | .compare left operator negate right =>
    .binary (Dialect.postgres.comparison operator negate) (left.expr scope) right.expr
  | .contains left right => .binary Dialect.postgres.containment (left.expr scope) right.expr
  | .member left negate items => .member negate (left.expr scope) (items.map Reference.expr)
  | .isNull term negate => .isNull negate (term.expr scope)
  | _ => .null

def Condition.leafExpr (read : Operand → Expr) : Condition → Expr
  | .compare left operator negate right =>
    .binary (Dialect.postgres.comparison operator negate) (read left) right.expr
  | .contains left right => .binary Dialect.postgres.containment (read left) right.expr
  | .member left negate items => .member negate (read left) (items.map Reference.expr)
  | .isNull (.operand o) negate => .isNull negate (read o)
  | .isNull (.reference r) negate => .isNull negate r.expr
  | _ => .null

def Condition.operand? : Condition → Option Operand
  | .compare left _ _ _ | .contains left _ | .member left _ _ | .isNull (.operand left) _ => some left
  | _ => none

theorem Condition.leafExpr_expr (scope : Option String) (c : Condition) :
    c.leafExpr (·.expr scope) = c.atomExpr scope := by
  cases c with
  | isNull term negate => cases term <;> rfl
  | _ => rfl

def LexesBeforePath (s : String) (ts : List Token) : Prop :=
  ∀ rest, lexFrom .between (s.toList ++ '#' :: rest) = (lexFrom .between ('#' :: rest)).map (ts ++ ·)

theorem IsIdentifier.lexesBeforePath {s : String} (plain : IsIdentifier s) : LexesBeforePath s [.name s] := by
  intro rest
  have word : Token.ofWord s = .name s := by rw [Token.ofWord, plain.notKeyword]
  rw [lexFrom_word plain.nonempty plain.word, word]
  · rfl
  · intro c head
    obtain rfl : c = '#' := by simpa [eq_comm] using head
    decide

namespace Operand

variable {left : Operand} {scope : Option String}

def exprFrom (o : Operand) (base : Expr) : Expr :=
  if o.keys.isEmpty then base
  else
    let path := String.ofList (Dialect.Postgres.arrayText (o.keys.map String.toList))
    let extracted : Expr := .binary "#>>" base (.literal path)
    match Dialect.postgres.castType o.kind with
    | some type => .cast extracted type
    | none => extracted

theorem lexes_path {s : String} {ts : List Token} (base : LexesBeforePath s ts) (path : String) :
    Lexes (s ++ "#>>" ++ Text.quoted path) (ts ++ [.symbol "#>>", .literal path]) := by
  intro rest ends
  have shape : (s ++ "#>>" ++ Text.quoted path).toList ++ rest =
      s.toList ++ '#' :: ('>' :: '>' :: ((Text.quoted path).toList ++ rest)) := by simp
  have sign : '#' :: '>' :: '>' :: ((Text.quoted path).toList ++ rest) =
      "#>>".toList ++ ((Text.quoted path).toList ++ rest) := by simp
  have quote : ∀ c ∈ ((Text.quoted path).toList ++ rest).head?,
      isSymbolChar c = false ∧ isParameterChar c = false := by
    intro c head
    obtain rfl : c = Text.apostrophe := by simpa [Text.quoted, eq_comm] using head
    decide
  rw [shape, base, sign, lexFrom_symbol (by decide) (by decide) quote, lexFrom_literal path ends.quote]
  cases lexFrom .between rest <;> simp

theorem reads_path {room : Nat} {ts : List Token} {base : Expr} (below : room ≤ memberLevel + 1)
    (reads : ReadsIn room (memberLevel + 1) ts base) (path : String) :
    ReadsIn room (memberLevel + 1) (ts ++ [.symbol "#>>", .literal path])
      (.binary "#>>" base (.literal path)) := by
  have signs : Signs [.symbol "#>>"] (.other "#>>") := signs_of_spelling (by decide)
  exact ReadsIn.leaning signs rfl reads below ((primary_literal path).reads _)

theorem cast_path (s path type : String) : Dialect.Postgres.cast (s ++ "#>>" ++ Text.quoted path) type =
    "(" ++ (s ++ "#>>" ++ Text.quoted path) ++ ")" ++ "::" ++ type := by
  have sign : (s ++ "#>>" ++ Text.quoted path).toList.all
      (fun c => c.isAlphanum || c = '_' || c = '.' || c = '@' || c = '$') = false :=
    List.all_eq_false.2 ⟨'#', by simp, by decide⟩
  have compound : Dialect.Postgres.isAtomic (s ++ "#>>" ++ Text.quoted path) = false := by
    rw [Dialect.Postgres.isAtomic, sign, Bool.and_false]
  rw [Dialect.Postgres.cast, compound]
  simp [String.append_assoc]

theorem lexes_castType {kind : Kind} {type : String} (cast : Dialect.postgres.castType kind = some type) :
    Lexes type [.name type] := by
  have plain : IsIdentifier type := by
    cases kind <;> cases cast <;> exact ⟨by decide, by decide, by decide⟩
  exact plain.lexes

/-- Only an extracted text that is not cast can be taken apart, by operators of the tightest kind. -/
theorem reads_exprFrom {base : Expr} {ts : List Token}
    (read : lex (left.mapping.expression Dialect.postgres scope) = some ts)
    (beforePath : LexesBeforePath (left.mapping.expression Dialect.postgres scope) ts)
    (stands : Stands isLevel ts base) :
    ∃ us, lex (left.text Dialect.postgres scope) = some us ∧
      ReadsIn isLevel (memberLevel + 1) us (left.exprFrom base) := by
  let column := left.mapping.expression Dialect.postgres scope
  let path := String.ofList (Dialect.Postgres.arrayText (left.keys.map String.toList))
  have tight : isLevel ≤ memberLevel + 1 := by decide
  have extracted : Dialect.postgres.jsonPath column left.keys = column ++ "#>>" ++ Text.quoted path := rfl
  have lexed : Lexes (column ++ "#>>" ++ Text.quoted path) _ := lexes_path beforePath path
  have reads := reads_path tight (stands.readsIn tight) path
  -- The column itself, a text extracted from it, and such a text in parentheses before its cast.
  cases bare : left.keys.isEmpty with
  | true =>
    simp only [text, exprFrom, bare, if_true]
    exact ⟨ts, read, stands.readsIn tight⟩
  | false =>
    cases cast : Dialect.postgres.castType left.kind with
    | none =>
      simp only [text, exprFrom, bare, cast, Bool.false_eq_true, if_false]
      exact ⟨_, lexed.lex, reads⟩
    | some type =>
      have casted : Dialect.postgres.cast (column ++ "#>>" ++ Text.quoted path) type = _ :=
        cast_path column path type
      simp only [text, exprFrom, bare, cast, Bool.false_eq_true, if_false]
      rw [extracted, casted]
      exact ⟨_, (lexed.parenthesised.typeCast (lexes_castType cast)).lex,
        ((reads.parenthesised.cast type).stands isLevel).readsIn tight⟩

theorem reads (plain : left.mapping.IsPlain scope) :
    ∃ ts, lex (left.text Dialect.postgres scope) = some ts ∧
      ReadsIn isLevel (memberLevel + 1) ts (left.expr scope) := by
  have base : left.mapping.expression Dialect.postgres scope = left.mapping.reference scope := by
    unfold Mapping.expression
    rw [plain.stored]
    cases scope <;> rfl
  have stands := (primary_name (left.mapping.reference scope)).stands isLevel
  refine reads_exprFrom ?_ ?_ stands
  · rw [base]
    exact plain.reference.lexes.lex
  · rw [base]
    exact plain.reference.lexesBeforePath

theorem parameterName_plain (o : Operand) : ∀ c ∈ o.parameterName.toList, isParameterChar c = true := by
  intro c found
  simp only [Operand.parameterName, Naming.placeholder, String.toList_ofList, List.mem_map] at found
  obtain ⟨d, _, rfl⟩ := found
  unfold Naming.placeholderChar
  split
  · rename_i kept
    exact kept
  · rfl

theorem parameterName_ne_empty {o : Operand} (nonempty : o.mapping.column ≠ "") : o.parameterName ≠ "" := by
  have grows (keys : List String) (name : String) (given : name ≠ "") :
      keys.foldl (fun name segment => name ++ "_" ++ segment) name ≠ "" := by
    induction keys generalizing name with
    | nil => exact given
    | cons key rest ih =>
      apply ih
      intro empty
      have chars := congrArg String.toList empty
      simp at chars
  intro empty
  have chars := congrArg String.toList empty
  simp only [Operand.parameterName, Naming.placeholder, String.toList_ofList, String.toList_empty,
    List.map_eq_nil_iff, String.toList_eq_nil_iff] at chars
  exact grows o.keys o.mapping.column nonempty chars

theorem Names.plain {name : String} (named : left.Names name) (nonempty : left.mapping.column ≠ "") :
    name ≠ "" ∧ ∀ c ∈ name.toList, isParameterChar c = true := by
  have numbered {base : String} (plain : base ≠ "" ∧ ∀ c ∈ base.toList, isParameterChar c = true) (n : Nat) :
      base ++ "_" ++ toString n ≠ "" ∧ ∀ c ∈ (base ++ "_" ++ toString n).toList, isParameterChar c = true := by
    constructor
    · intro empty
      have chars := congrArg String.toList empty
      simp at chars
    · intro c found
      simp only [String.toList_append, List.mem_append] at found
      rcases found with (inBase | underscore) | digit
      · exact plain.2 c inBase
      · obtain rfl : c = '_' := by simpa using underscore
        rfl
      · have isDigit : c.isDigit = true := by
          rw [Nat.toString_eq_ofList_toDigits, String.toList_ofList] at digit
          exact Nat.isDigit_of_mem_toDigits (by decide) (by decide) digit
        simp [isParameterChar, Char.isAlphanum, isDigit]
  -- A name may be numbered twice: as an item, and because the name was taken.
  obtain ⟨base, k, own, rfl⟩ := named
  have first : left.parameterName ≠ "" ∧ ∀ c ∈ left.parameterName.toList, isParameterChar c = true :=
    ⟨parameterName_ne_empty nonempty, left.parameterName_plain⟩
  have plain : base ≠ "" ∧ ∀ c ∈ base.toList, isParameterChar c = true := by
    rcases own with rfl | ⟨i, rfl⟩
    · exact first
    · exact numbered first i
  cases k with
  | zero => exact plain
  | succ k => exact numbered plain (k + 2)

end Operand

theorem Dialect.Postgres.isAtomic_parameter {name : String}
    (plain : ∀ c ∈ name.toList, isParameterChar c = true) : isAtomic ("@" ++ name) = true := by
  have all : ∀ c ∈ ("@" ++ name).toList,
      (c.isAlphanum || c = '_' || c = '.' || c = '@' || c = '$') = true := by
    intro c found
    simp only [String.toList_append, List.mem_append] at found
    rcases found with sign | inName
    · obtain rfl : c = '@' := by simpa using sign
      rfl
    · have own := plain c inName
      simp only [isParameterChar, Bool.or_eq_true] at own
      rcases own with letter | underscore
      · simp [letter]
      · simp [underscore]
  have filled : ("@" ++ name).isEmpty = false := by
    rw [String.isEmpty_eq_false_iff]
    intro empty
    have lists := congrArg String.toList empty
    simp at lists
  rw [isAtomic, filled, List.all_eq_true.2 all]
  rfl

theorem Reference.primary {r : Reference} {left : Operand} (plain : left.mapping.column ≠ "")
    (named : ∀ name ∈ r.names, left.Names name) :
    ∃ ts, Lexes (r.text Dialect.postgres) ts ∧ Primary ts r.expr := by
  cases r with
  | null =>
    have read : Lexes "NULL" [.keyword .null] := lexes_keyword .null
    exact ⟨_, read, primary_null⟩
  | parameter name document =>
    obtain ⟨nonempty, chars⟩ := (named name List.mem_cons_self).plain plain
    have read := lexes_parameter nonempty chars
    cases document with
    | false => exact ⟨_, read, primary_parameter name⟩
    | true =>
      have text : Reference.text (.parameter name true) Dialect.postgres = "@" ++ name ++ "::" ++ "jsonb" := by
        have printed : Reference.text (.parameter name true) Dialect.postgres =
            Dialect.Postgres.cast ("@" ++ name) "jsonb" := rfl
        rw [printed, Dialect.Postgres.cast, Dialect.Postgres.isAtomic_parameter chars]
        rfl
      have type : Lexes "jsonb" [.name "jsonb"] := lexes_word (by decide) (by decide)
      rw [text]
      exact ⟨_, read.typeCast type, (primary_parameter name).cast "jsonb"⟩

theorem follows_comparison (operator : Operator) (single : operator ≠ .member) (negate : Bool)
    {us : List Token} {y : Expr} (right : Primary us y) :
    ∃ kind sign, kind ≠ .test ∧ Lexes (Dialect.postgres.comparison operator negate) sign ∧
      Follows kind (sign ++ us) (.binary (Dialect.postgres.comparison operator negate) · y) := by
  have symbol {text : String} (nonempty : text ≠ "") (chars : text.toList.all isSymbolChar = true)
      (compares : Operation.ofSymbol text = .comparison text) :
      ∃ kind sign, kind ≠ .test ∧ Lexes text sign ∧ Follows kind (sign ++ us) (.binary text · y) :=
    ⟨.comparison, _, by decide, lexes_symbol nonempty chars, .comparison compares right⟩
  have like : Lexes "LIKE" [.keyword .like] := lexes_keyword .like
  have not : Lexes "NOT" [.keyword .not] := lexes_keyword .not
  cases operator with
  | eq => cases negate <;> exact symbol (by decide) (by decide) rfl
  | gt => cases negate <;> exact symbol (by decide) (by decide) rfl
  | ge => cases negate <;> exact symbol (by decide) (by decide) rfl
  | lt => cases negate <;> exact symbol (by decide) (by decide) rfl
  | le => cases negate <;> exact symbol (by decide) (by decide) rfl
  | member => exact absurd rfl single
  | like =>
    cases negate with
    | false => exact ⟨.tight, _, by decide, like, .like false right⟩
    | true =>
      have spelled : Dialect.postgres.comparison .like true = "NOT" ++ " " ++ "LIKE" := by decide
      refine ⟨.tight, [.keyword .not, .keyword .like], by decide, ?_, .like true right⟩
      rw [spelled]
      exact not.spaced like

theorem lexes_membership (negate : Bool) : Lexes (Dialect.postgres.comparison .member negate)
    (if negate then [.keyword .not, .keyword .member] else [.keyword .member]) := by
  have member : Lexes "IN" [.keyword .member] := lexes_keyword .member
  have not : Lexes "NOT" [.keyword .not] := lexes_keyword .not
  cases negate with
  | false => exact member
  | true =>
    have spelled : Dialect.postgres.comparison .member true = "NOT" ++ " " ++ "IN" := by decide
    rw [spelled]
    exact not.spaced member

theorem lexes_test (negate : Bool) : Lexes (if negate then "IS NOT NULL" else "IS NULL")
    (.keyword .is :: if negate then [.keyword .not, .keyword .null] else [.keyword .null]) := by
  have is : Lexes "IS" [.keyword .is] := lexes_keyword .is
  have not : Lexes "NOT" [.keyword .not] := lexes_keyword .not
  have null : Lexes "NULL" [.keyword .null] := lexes_keyword .null
  have plain : "IS NULL" = "IS" ++ " " ++ "NULL" := by decide
  have negated : "IS NOT NULL" = "IS" ++ " " ++ "NOT" ++ " " ++ "NULL" := by decide
  rw [plain, negated]
  cases negate with
  | false => exact is.spaced null
  | true => exact (is.spaced not).spaced null

theorem Reference.items {left : Operand} (column : left.mapping.column ≠ "") (first : Reference)
    (rest : List Reference) (named : ∀ r ∈ first :: rest, ∀ name ∈ r.names, left.Names name) :
    ∃ ts, Lexes (String.intercalate "," ((first :: rest).map (·.text Dialect.postgres))) ts ∧
      Items ts ((first :: rest).map Reference.expr) := by
  obtain ⟨ts, read, primary⟩ := Reference.primary column (named first (by simp))
  induction rest generalizing first ts with
  | nil =>
    rw [List.map_singleton, String.intercalate_singleton]
    exact ⟨ts, read, .last (primary.reads 0)⟩
  | cons second rest ih =>
    have later : ∀ r ∈ second :: rest, ∀ name ∈ r.names, left.Names name :=
      fun r member => named r (List.mem_cons_of_mem first member)
    obtain ⟨us, readSecond, primarySecond⟩ := Reference.primary column (later second (by simp))
    obtain ⟨vs, readRest, items⟩ := ih second later us readSecond primarySecond
    rw [List.map_cons, List.map_cons, String.intercalate_cons_cons]
    exact ⟨_, read.comma readRest, .cons (primary.reads 0) items⟩

namespace Condition

/-- The text is that of the operand, and behind it what makes a single comparison or test of it. -/
def IsLeaf (scope : Option String) (left : Operand) (kind : Follower) (c : Condition) : Prop :=
  ∃ s us, c.text Dialect.postgres scope = left.text Dialect.postgres scope ++ " " ++ s ∧ Lexes s us ∧
    Follows kind us fun x => c.leafExpr fun _ => x

variable {scope : Option String} {left : Operand}

theorem IsLeaf.reads {c : Condition} {kind : Follower} (leaf : c.IsLeaf scope left kind) {ts : List Token}
    {x : Expr} (read : lex (left.text Dialect.postgres scope) = some ts)
    (operand : ReadsIn isLevel kind.demand ts x) :
    ∃ us, Lexes (c.text Dialect.postgres scope) us ∧ Reads isLevel us (c.leafExpr fun _ => x) := by
  obtain ⟨s, us, text, lexed, follows⟩ := leaf
  rw [text]
  exact ⟨ts ++ us, lexed.behind read,
    (follows.readsIn kind.isLevel_le_level operand).mono kind.isLevel_le_level (Nat.le_refl _)⟩

theorem isLeaf_isNull (left : Operand) (negate : Bool) :
    (isNull (.operand left) negate).IsLeaf scope left .test := by
  refine ⟨if negate then "IS NOT NULL" else "IS NULL", _, ?_, lexes_test negate, .isNull negate⟩
  rw [text, Term.text, String.append_assoc]
  cases negate <;> rfl

theorem isNull_reference_reads {r : Reference} {ts : List Token} (read : Lexes (r.text Dialect.postgres) ts)
    (primary : Primary ts r.expr) (negate : Bool) :
    ∃ us, Lexes ((isNull (.reference r) negate).text Dialect.postgres scope) us ∧
      Reads isLevel us (.isNull negate r.expr) := by
  have printed : (isNull (.reference r) negate).text Dialect.postgres scope =
      r.text Dialect.postgres ++ " " ++ if negate then "IS NOT NULL" else "IS NULL" := by
    rw [text, Term.text, String.append_assoc]
    cases negate <;> rfl
  rw [printed]
  exact ⟨_, read.spaced (lexes_test negate), ((primary.reads isLevel).isNull negate).readsIn (Nat.le_refl _)⟩

section

variable (column : left.mapping.column ≠ "")

include column

theorem isLeaf_compare {operator : Operator} (single : operator ≠ .member) (negate : Bool) {right : Reference}
    (named : ∀ name ∈ right.names, left.Names name) :
    ∃ kind, kind ≠ .test ∧ (compare left operator negate right).IsLeaf scope left kind := by
  obtain ⟨us, readRight, primary⟩ := Reference.primary column named
  obtain ⟨kind, sign, apart, readSign, follows⟩ := follows_comparison operator single negate primary
  refine ⟨kind, apart, _, _, ?_, readSign.spaced readRight, follows⟩
  rw [text]
  simp only [String.append_assoc]

theorem isLeaf_contains {right : Reference} (named : ∀ name ∈ right.names, left.Names name) :
    (contains left right).IsLeaf scope left .tight := by
  obtain ⟨us, readRight, primary⟩ := Reference.primary column named
  have readSign : Lexes "@>" [.symbol "@>"] := lexes_symbol (by decide) (by decide)
  refine ⟨"@>" ++ " " ++ right.text Dialect.postgres, _, ?_, readSign.spaced readRight, .other (by decide) primary⟩
  rw [text]
  simp only [String.append_assoc]
  rfl

theorem isLeaf_member (negate : Bool) (first : Reference) (rest : List Reference)
    (named : ∀ r ∈ first :: rest, ∀ name ∈ r.names, left.Names name) :
    (member left negate (first :: rest)).IsLeaf scope left .tight := by
  obtain ⟨us, readItems, items⟩ := Reference.items column first rest named
  refine ⟨_, _, ?_, (lexes_membership negate).spaced readItems.parenthesised, .member negate items⟩
  have opening : " (" = " " ++ "(" := by decide
  rw [text, opening]
  simp only [String.append_assoc]

end

end Condition

end EntitySql
