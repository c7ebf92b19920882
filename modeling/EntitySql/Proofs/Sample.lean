import EntitySql.Declaration
import EntitySql.FieldType
import EntitySql.Schema.Draft
import EntitySql.Proofs.Meaning

/-! Small schemas, a declaration and a plain engine, on which general statements are tried out. -/

set_option autoImplicit false

namespace EntitySql.Sample

def foos : Schema where
  table := "foos"
  tableAlias := "f"
  columns := ⟨[.plain "Id" "id", .plain "TemplateKey" "template_key", .plain "Size" "size",
    { Mapping.plain "Attributes" "attributes" with columnType := some .jsonb }]⟩
  key := "Id"
  joins := []
  ordering := none
  table_not_blank := by decide
  key_mapped := by decide
  ordering_mapped := by simp

def changes : Record :=
  ⟨[("Size", .int 1), ("Id", .int 9), ("Size", .int 2), ("Attributes", .array [.null])]⟩

def twins : Schema where
  table := "twins"
  tableAlias := "t"
  columns := ⟨[.plain "Id" "row_id", .plain "Other" "row id"]⟩
  key := "Id"
  joins := []
  ordering := none
  table_not_blank := by decide
  key_mapped := by decide
  ordering_mapped := by simp

/-- Two properties have one column, and the key is read-only. -/
def shared : Schema where
  table := "foos"
  tableAlias := "f"
  columns := ⟨[{ Mapping.plain "Id" "id" with readOnly := true }, .plain "Size" "size", .plain "Width" "size"]⟩
  key := "Id"
  joins := []
  ordering := none
  table_not_blank := by decide
  key_mapped := by decide
  ordering_mapped := by simp

def computed : Schema where
  table := "flags"
  tableAlias := "f"
  columns := ⟨[.plain "Id" "id", { Mapping.plain "Known" "known" with computed := some "(a OR NOT b) IS NOT NULL" },
    { Mapping.plain "Same" "same" with computed := some "a = b" },
    { Mapping.plain "Flag" "flag" with computed := some "a OR b" }]⟩
  key := "Id"
  joins := []
  ordering := none
  table_not_blank := by decide
  key_mapped := by decide
  ordering_mapped := by simp

/-- A schema with a dot in the name of its key, and a column of documents that the name could lead into. -/
def ordersSteps : List Draft.Step :=
  [.map (.plain "Order.Id" "id"), .map { Mapping.plain "Order" "order_doc" with columnType := some .jsonb },
    .key "Order.Id"]

def joined : Schema :=
  { foos with
    joins := [⟨.inner, "bars", "b", "b.foo_id = f.id"⟩]
    ordering := some ⟨"Size", .ascending⟩
    ordering_mapped := by
      intro o same
      cases same
      decide }

/-- The table of `foos`, read beside another one: two columns are computed, and one of them orders the rows. -/
def viewed : Schema where
  table := "foos"
  tableAlias := "x"
  columns := ⟨[.plain "Id" "id",
    { Mapping.plain "TemplateKey" "template_key" with computed := some "upper(x.template_key)" },
    .plain "Size" "size",
    { Mapping.plain "Attributes" "attributes" with columnType := some .jsonb, computed := some "b.attributes" }]⟩
  key := "Id"
  joins := [⟨.left, "bars", "b", "b.foo_id = x.id"⟩]
  ordering := some ⟨"TemplateKey", .descending⟩
  table_not_blank := by decide
  key_mapped := by decide
  ordering_mapped := by
    intro o same
    cases same
    decide

def fields : List (Declaration.Field FieldType) :=
  [⟨"id", .scalar .int64, []⟩, ⟨"template_key", .scalar .text, []⟩,
    ⟨"cached", .scalar .text, [⟨"property", .arguments [⟨"skip", none⟩]⟩]⟩,
    ⟨"x2_y9", .optional (.scalar .json), []⟩]

def declared : Declaration.Item FieldType :=
  ⟨"FooEntity", "", [], .named fields⟩

def description : Declaration.Description FieldType :=
  ⟨"FooEntity", "FooEntity", [⟨"Id", "id", .scalar .int64⟩, ⟨"TemplateKey", "template_key", .scalar .text⟩,
    ⟨"X2Y9", "x2_y9", .optional (.scalar .json)⟩]⟩

def bracketed : Dialect :=
  { Dialect.postgres with quoteIdentifier := fun name => "[" ++ name ++ "]" }

theorem bracketed_injective : Function.Injective bracketed.quoteIdentifier := by
  intro a b same
  simpa [bracketed] using same

/-- Patterns match what they are equal to, and in the order all values are alike. -/
def engine : Engine where
  matchesPattern v w := v == w
  contains v w := v == w
  atMost _ _ := true
  atMost_total _ _ := .inl rfl

def emptyRow (_ : Operand) : Value :=
  .null

end EntitySql.Sample
