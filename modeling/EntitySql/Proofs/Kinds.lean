import EntitySql.Condition.Printer
import EntitySql.FieldType
import EntitySql.Proofs.Lowering
import EntitySql.Proofs.Sample

/-! Types and the kinds of their values. The kind that is known from the type of a field is the kind of
whatever the field holds, unless the field is empty. So the items of a list of one type are of one kind, up
to nulls, and a part of a document that is looked up in the list is cast to the type of that kind, wherever
in the list the first item stands that is not null. -/

set_option autoImplicit false

namespace EntitySql

/-! ## Integers -/

theorem toInt_toInt64 {n : UInt64} (small : 2 * n.toNat < UInt64.size) : n.toInt64.toInt = n.toNat :=
  BitVec.toInt_eq_toNat_of_lt small

def Scalar.integer? : (s : Scalar) → s.Carrier → Option Int
  | .int64, n => some n.toInt
  | .int32, n => some n.toInt
  | .int16, n => some n.toInt
  | .int8, n => some n.toInt
  | .uint32, n => some n.toNat
  | .uint16, n => some n.toNat
  | .uint8, n => some n.toNat
  | .bool, _ | .float64, _ | .float32, _ | .text, _ | .uuid, _ | .timestamp, _ | .json, _ | .value, _ => none

namespace Value

mutual

def integers : Value → List Int
  | .int n => [n.toInt]
  | .array items => integersOf items
  | _ => []

def integersOf : List Value → List Int
  | [] => []
  | v :: rest => integers v ++ integersOf rest

end

theorem integersOf_map {α : Type} {f : α → Value} {found : α → List Int}
    (each : ∀ x, (f x).integers = found x) (xs : List α) : integersOf (xs.map f) = xs.flatMap found := by
  induction xs with
  | nil => rfl
  | cons x rest ih => rw [List.map_cons, integersOf, each, ih, List.flatMap_cons]

end Value

theorem Scalar.integers_toValue {s : Scalar} (definite : s ≠ .value) (x : s.Carrier) :
    (s.toValue x).integers = (s.integer? x).toList := by
  cases s with
  | value => exact absurd rfl definite
  | uint32 =>
    have range := UInt32.toNat_lt x
    have small : 2 * x.toUInt64.toNat < UInt64.size := by simp [UInt64.size]; omega
    simp [toValue, Value.integers, integer?, toInt_toInt64 small]
  | uint16 =>
    have range := UInt16.toNat_lt x
    have small : 2 * x.toUInt64.toNat < UInt64.size := by simp [UInt64.size]; omega
    simp [toValue, Value.integers, integer?, toInt_toInt64 small]
  | uint8 =>
    have range := UInt8.toNat_lt x
    have small : 2 * x.toUInt64.toNat < UInt64.size := by simp [UInt64.size]; omega
    simp [toValue, Value.integers, integer?, toInt_toInt64 small]
  | _ => simp [toValue, Value.integers, integer?]

/-! ## Fields -/

namespace FieldType

def isDefinite : FieldType → Bool
  | scalar s => s ≠ .value
  | optional content => content.isDefinite
  | list item => item.isDefinite

/-- Nothing is there, and not only in a list. -/
def isEmpty : (t : FieldType) → t.Carrier → Bool
  | scalar _, _ => false
  | optional content, x =>
    match x with
    | some y => content.isEmpty y
    | none => true
  | list _, _ => false

def integers : (t : FieldType) → t.Carrier → List Int
  | scalar s, x => (s.integer? x).toList
  | optional content, x =>
    match x with
    | some y => content.integers y
    | none => []
  | list item, xs => List.flatMap item.integers xs

variable {t : FieldType}

theorem kind_toValue (definite : t.isDefinite = true) (x : t.Carrier) :
    (t.toValue x).kind = if t.isEmpty x then .null else t.kind := by
  induction t with
  | scalar s =>
    cases s with
    | value => cases definite
    | _ => rfl
  | optional content ih =>
    cases x with
    | none => rfl
    | some y => exact ih definite y
  | list item => rfl

theorem kind_ne_null (t : FieldType) : t.kind ≠ .null := by
  induction t with
  | scalar s => cases s <;> exact Kind.noConfusion
  | optional content ih => exact ih
  | list item => exact Kind.noConfusion

theorem isNull_toValue (definite : t.isDefinite = true) (x : t.Carrier) :
    (t.toValue x).isNull = t.isEmpty x := by
  rw [Bool.eq_iff_iff, ← Value.kind_eq_null_iff, kind_toValue definite]
  cases t.isEmpty x <;> simp [t.kind_ne_null]

theorem integers_toValue (definite : t.isDefinite = true) (x : t.Carrier) :
    (t.toValue x).integers = t.integers x := by
  induction t with
  | scalar s => exact Scalar.integers_toValue (by simpa [isDefinite] using definite) x
  | optional content ih =>
    cases x with
    | none => rfl
    | some y => exact ih definite y
  | list item ih => exact Value.integersOf_map (ih definite) x

/-! ## Lists -/

theorem kind_item (definite : t.isDefinite = true) {xs : List t.Carrier} {v : Value}
    (listed : v ∈ xs.map t.toValue) (given : v.isNull = false) : v.kind = t.kind := by
  obtain ⟨x, -, rfl⟩ := List.mem_map.1 listed
  rw [isNull_toValue definite] at given
  rw [kind_toValue definite, given]
  rfl

end FieldType

/-- A list whose items are of one kind is compared as that kind, if not all of them are null. -/
theorem Comparison.kind_of_alike {c : Comparison} (operator : c.operator = .member) {items : List Value}
    (value : c.value = .array items) {k : Kind} (alike : ∀ v ∈ items, v.isNull = false → v.kind = k)
    (given : ∃ v ∈ items, v.isNull = false) : c.kind = k := by
  have searched : c.kind = ((items.map Value.kind).find? (· ≠ .null)).getD .null := by
    rw [kind, value, operator]
  have notNull (v : Value) : v.kind ≠ .null ↔ v.isNull = false := by
    rw [Ne, Value.kind_eq_null_iff, Bool.not_eq_true]
  rw [searched]
  -- The search ends at an item that is not null, and all of these are of one kind.
  cases found : (items.map Value.kind).find? (· ≠ .null) with
  | none =>
    obtain ⟨v, listed, filled⟩ := given
    have passed := List.find?_eq_none.1 found v.kind (List.mem_map_of_mem listed)
    exact absurd ((notNull v).2 filled) (by simpa using passed)
  | some first =>
    obtain ⟨v, listed, rfl⟩ := List.mem_map.1 (List.mem_of_find?_eq_some found)
    have filled : v.kind ≠ .null := by simpa using List.find?_some found
    exact alike v listed ((notNull v).1 filled)

namespace Comparison

variable {c : Comparison}

theorem operand_of_document {schema : Schema} {m : Mapping}
    (resolved : schema.resolve c.path.property = .ok m) (document : m.isDocument = true) :
    c.operand schema = .ok ⟨m, c.path.keys, c.kind⟩ := by
  simp only [operand, resolved, bind, Except.bind, document, Bool.or_true]
  rfl

theorem condition_items (operator : c.operator = .member) {first : Value} {rest : List Value}
    (value : c.value = .array (first :: rest)) (left : Operand) (ps : Parameters) :
    ∃ references, (c.condition left ps).1 = .member left c.negate references := by
  generalize (c.condition left ps).1 = condition, c.condition_lowered left (.refl (c.condition left ps).2) =
    lowered
  cases lowered with
  | withNull null => simp [value, Value.isNull] at null
  | noItems _ empty => cases value.symm.trans empty
  | items => exact ⟨_, rfl⟩
  | item _ _ scalar => exact absurd (by rw [value]; rfl) scalar
  | relation other => exact absurd operator other

theorem compile_part (operator : c.operator = .member) {items : List Value} (value : c.value = .array items)
    {k : Kind} (alike : ∀ v ∈ items, v.isNull = false → v.kind = k) (given : ∃ v ∈ items, v.isNull = false)
    {schema : Schema} {m : Mapping} (resolved : schema.resolve c.path.property = .ok m)
    (document : m.isDocument = true) (ps : Parameters) :
    ∃ references final,
      c.compile schema ps = .ok (.member ⟨m, c.path.keys, k⟩ c.negate references) final := by
  have operand := operand_of_document resolved document
  rw [kind_of_alike operator value alike given] at operand
  obtain ⟨v, listed, -⟩ := given
  obtain ⟨first, rest, shape⟩ := List.exists_cons_of_ne_nil (List.ne_nil_of_mem listed)
  obtain ⟨references, condition⟩ := condition_items operator (shape ▸ value) ⟨m, c.path.keys, k⟩ ps
  have compiled := c.compile_of_operand _ operand ps
  rw [condition] at compiled
  exact ⟨references, _, compiled⟩

end Comparison

def Dialect.castText (d : Dialect) (k : Kind) (text : String) : String :=
  match d.castType k with
  | some type => d.cast text type
  | none => text

theorem Operand.text_of_part {left : Operand} (part : left.keys ≠ []) (d : Dialect) (scope : Option String) :
    left.text d scope = d.castText left.kind (d.jsonPath (left.mapping.expression d scope) left.keys) := by
  have keyed : left.keys.isEmpty = false := by simpa using part
  simp only [text, keyed, Bool.false_eq_true, if_false]
  rfl

namespace FieldType

variable {t : FieldType}

/-- The kind of a value is the one that is known from its type, unless nothing is there. It is null exactly
where the field is empty before any list begins. Integers are carried over as they are. So the items of a
list of one type are of the kind of that type, up to nulls, and when a part of a document is looked up in
such a list, it is cast as that kind asks, as long as not all items are null. -/
theorem kinds_follow_types (definite : t.isDefinite = true) :
    (∀ x : t.Carrier,
      ((t.toValue x).kind = .null ↔ t.isEmpty x = true) ∧
      (t.isEmpty x = false → (t.toValue x).kind = t.kind) ∧
      (t.toValue x).integers = t.integers x) ∧
    ∀ xs : List t.Carrier,
      (∀ v ∈ xs.map t.toValue, v.isNull = false → v.kind = t.kind) ∧
      ∀ (schema : Schema) (property : String) (m : Mapping), (Path.ofText property).keys ≠ [] →
        schema.resolve (Path.ofText property).property = .ok m → m.isDocument = true →
        (∃ v ∈ xs.map t.toValue, v.isNull = false) → ∀ ps,
        ∃ condition references final,
          (Predicate.memberOf property (xs.map t.toValue)).compile schema ps = .ok condition final ∧
          ∀ d scope, condition.text d scope =
            d.castText t.kind (d.jsonPath (m.expression d scope) (Path.ofText property).keys) ++ " " ++
              d.comparison .member false ++
              " (" ++ String.intercalate "," (List.map (Reference.text · d) references) ++ ")" := by
  refine ⟨fun x => ⟨?_, fun full => ?_, integers_toValue definite x⟩, fun xs => ?_⟩
  · rw [Value.kind_eq_null_iff, isNull_toValue definite]
  · rw [kind_toValue definite, full]
    rfl
  · have alike : ∀ v ∈ xs.map t.toValue, v.isNull = false → v.kind = t.kind :=
      fun v listed full => kind_item definite listed full
    refine ⟨alike, fun schema property m nested resolved document given ps => ?_⟩
    let c : Comparison := ⟨.member, property, .array (xs.map t.toValue), false, false⟩
    have path : c.path = Path.ofText property := rfl
    rw [← path] at resolved nested ⊢
    obtain ⟨references, final, compiled⟩ := c.compile_part rfl rfl alike given resolved document ps
    refine ⟨_, references, final, compiled, fun d scope => ?_⟩
    rw [Condition.text, Operand.text_of_part nested]

/-- The first item is null, and the others are integers of thirty-two bits. -/
theorem kinds_follow_types_leadingNull :
    let t : FieldType := .optional (.scalar .int32)
    let xs : List t.Carrier := ([none, some (-5)] : List (Option Int32))
    let m : Mapping := { Mapping.plain "Attributes" "attributes" with columnType := some .jsonb }
    t.isDefinite = true ∧ (Path.ofText "Attributes.size").keys ≠ [] ∧
      Sample.foos.resolve (Path.ofText "Attributes.size").property = .ok m ∧ m.isDocument = true ∧
      (∃ v ∈ xs.map t.toValue, v.isNull = false) ∧
      (∀ v ∈ xs.map t.toValue, v.isNull = false → v.kind = .int) ∧
      ∃ condition references final,
        (Predicate.memberOf "Attributes.size" (xs.map t.toValue)).compile Sample.foos .empty =
          .ok condition final ∧
        ∀ d scope, condition.text d scope =
          d.castText .int (d.jsonPath (m.expression d scope) (Path.ofText "Attributes.size").keys) ++ " " ++
            d.comparison .member false ++
            " (" ++ String.intercalate "," (List.map (Reference.text · d) references) ++ ")" := by
  intro t xs m
  have definite : t.isDefinite = true := rfl
  have nested : (Path.ofText "Attributes.size").keys ≠ [] := by decide
  have resolved : Sample.foos.resolve (Path.ofText "Attributes.size").property = .ok m := rfl
  have given : ∃ v ∈ xs.map t.toValue, v.isNull = false := ⟨.int (-5), .tail _ (.head _), rfl⟩
  have lists := (kinds_follow_types definite).2 xs
  exact ⟨definite, nested, resolved, rfl, given, lists.1,
    lists.2 Sample.foos "Attributes.size" m nested resolved rfl given .empty⟩

end FieldType

end EntitySql
