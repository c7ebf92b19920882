import EntitySql.Condition.Printer
import EntitySql.Predicate.Compile
import EntitySql.Proofs.Lowering

/-! Predicates written in one pass. Here the text is put together while values are still being bound, so
the dialect is asked for casts, paths, operators and quoting in the middle of it, and whether a value goes
in as a document is decided beside a cast. It comes to the same as binding first and writing afterwards. -/

set_option autoImplicit false

namespace EntitySql

namespace Binding

variable {α β γ δ : Type}

theorem map_of_ok {x : Binding α} {ps qs : Parameters} {a : α} (ran : x ps = .ok a qs) (f : α → β) :
    (f <$> x) ps = .ok (f a) qs := by
  change EStateM.map f x ps = .ok (f a) qs
  simp only [EStateM.map, ran]

theorem map_of_error {x : Binding α} {ps qs : Parameters} {e : Error} (ran : x ps = .error e qs)
    (f : α → β) : (f <$> x) ps = .error e qs := by
  change EStateM.map f x ps = .error e qs
  simp only [EStateM.map, ran]

theorem outcome_map (f : α → β) (x : Binding α) (ps : Parameters) :
    (f <$> x).outcome ps = ((x.outcome ps).1.map f, (x.outcome ps).2) := by
  cases ran : x ps with
  | ok a qs => simp only [outcome, map_of_ok ran f, ran, Except.map]
  | error e qs => simp only [outcome, map_of_error ran f, ran, Except.map]

theorem ofExcept_map (f : α → β) (x : Except Error α) : ofExcept (x.map f) = f <$> ofExcept x := by
  cases x <;> rfl

theorem bind_of_map {y : Binding β} {x : Binding α} {f : α → β} (first : y = f <$> x)
    {k : β → Binding γ} {h : α → Binding δ} {g : δ → γ} (onward : ∀ a, k (f a) = g <$> h a) :
    (y >>= k) = g <$> (x >>= h) := by
  rw [first, bind_map_left, map_bind]
  exact congrArg (x >>= ·) (funext onward)

end Binding

structure WrittenOperand where
  text : String
  /-- The name under which values compared with the operand are bound. -/
  name : String
  isDocument : Bool

section

variable (d : Dialect) (scope : Option String)

def Operand.written (o : Operand) : WrittenOperand :=
  ⟨o.text d scope, o.parameterName, o.isDocument⟩

def Comparison.writeOperand (c : Comparison) (schema : Schema) : Except Error WrittenOperand := do
  let path := c.path
  let mapping ← schema.resolve path.property
  let base := mapping.expression d scope
  let name := Naming.placeholder mapping.column path.keys
  if path.keys.isEmpty then return ⟨base, name, mapping.isDocument⟩
  else if mapping.isDocument then
    let extracted := d.jsonPath base path.keys
    match d.castType c.kind with
    | some type => return ⟨d.cast extracted type, name, c.kind = .json⟩
    | none => return ⟨extracted, name, c.kind = .json⟩
  else throw (.notNavigable c.property mapping.column)

theorem Comparison.writeOperand_eq (c : Comparison) (schema : Schema) :
    c.writeOperand d scope schema = (c.operand schema).map (·.written d scope) := by
  cases resolved : schema.resolve c.path.property with
  | error e =>
    simp only [writeOperand, operand, resolved]
    rfl
  | ok mapping =>
    simp only [writeOperand, operand, resolved, bind, Except.bind]
    cases bare : c.path.keys.isEmpty with
    | true => simp [Except.map, pure, Except.pure, Operand.written, Operand.text, Operand.isDocument, bare,
        Operand.parameterName]
    | false =>
      cases mapping.isDocument with
      | false => rfl
      | true =>
        cases cast : d.castType c.kind with
        | none => simp [Except.map, pure, Except.pure, Operand.written, Operand.text, Operand.isDocument,
            bare, cast, Operand.parameterName]
        | some type => simp [Except.map, pure, Except.pure, Operand.written, Operand.text,
            Operand.isDocument, bare, cast, Operand.parameterName]

namespace WrittenOperand

variable (o : WrittenOperand)

def reference (stored : Value) (name : String) : String :=
  match stored.kind with
  | .json =>
    match d.castType .json with
    | some type => d.cast (d.parameter name) type
    | none => d.parameter name
  | _ => d.parameter name

def bind (base : String) (v : Value) : Binding String := do
  let stored := if o.isDocument then v.toDocument else v
  let name ← Binding.assign base stored
  return reference d stored name

def bindItem (i : Nat) (v : Value) : Binding String :=
  if v.isNull then return "NULL" else o.bind d (o.name ++ "_" ++ toString i) v

def bindItems : Nat → List Value → Binding (List String)
  | _, [] => return []
  | i, v :: rest => do
    let first ← o.bindItem d i v
    let others ← bindItems (i + 1) rest
    return first :: others

end WrittenOperand

namespace Comparison

variable (c : Comparison)

def writeNullSafe (left right : String) (negate : Bool) : String :=
  let test (text : String) (null : Bool) : String := text ++ if null then " IS NULL" else " IS NOT NULL"
  let nulls (leftNull rightNull : Bool) : String :=
    Condition.groupText d .and [test left leftNull, test right rightNull]
  let compared := left ++ " " ++ d.comparison .eq negate ++ " " ++ right
  if negate then Condition.groupText d .or [compared, nulls true false, nulls false true]
  else Condition.groupText d .or [compared, nulls true true]

def writeNull (left : String) : String :=
  match c.operator with
  | .eq => left ++ if c.negate then " IS NOT NULL" else " IS NULL"
  | .member => left ++ " " ++ d.comparison .member c.negate ++ " (NULL)"
  | operator => left ++ " " ++ d.comparison operator c.negate ++ " NULL"

def writeList (left : String) (items : List String) : String :=
  left ++ " " ++ d.comparison .member c.negate ++ " (" ++ String.intercalate "," items ++ ")"

def writeMembership (left : WrittenOperand) : Binding String :=
  match c.value with
  | .array [] => return Condition.truthText c.negate
  | .array items => do
    let references ← left.bindItems d 0 items
    return c.writeList d left.text references
  | v => do
    let reference ← left.bind d left.name v
    return c.writeList d left.text [reference]

def writeRelation (left right : String) : String :=
  if c.operator = .like && c.value.kind.isStructured then
    let contained := left ++ " " ++ d.containment ++ " " ++ right
    if c.negate then "NOT (" ++ contained ++ ")" else contained
  else if c.operator = .eq && !c.strict then writeNullSafe d left right c.negate
  else left ++ " " ++ d.comparison c.operator c.negate ++ " " ++ right

def writeCondition (left : WrittenOperand) : Binding String :=
  if c.value.isNull then return c.writeNull d left.text
  else if c.operator = .member then c.writeMembership d left
  else do
    let right ← left.bind d left.name c.value
    return c.writeRelation d left.text right

def write (schema : Schema) : Binding String := do
  let left ← Binding.ofExcept (c.writeOperand d scope schema)
  c.writeCondition d left

end Comparison

namespace Predicate

mutual

def write (schema : Schema) : Predicate → Binding String
  | .comparison c => c.write d scope schema
  | .group connective children => do
    let texts ← writeAll schema children
    return Condition.groupText d connective texts

def writeAll (schema : Schema) : List Predicate → Binding (List String)
  | [] => return []
  | p :: rest => do
    let first ← write schema p
    let others ← writeAll schema rest
    return first :: others

end

def writeFilter (schema : Schema) : Option Predicate → Binding String
  | none => return ""
  | some p => p.write d scope schema

end Predicate

end

theorem WrittenOperand.reference_eq (d : Dialect) (stored : Value) (name : String) :
    reference d stored name = (Reference.parameter name (stored.kind = .json)).text d := by
  cases stored <;> simp only [reference, Reference.text, Value.kind] <;>
    cases d.castType .json <;> rfl

namespace Operand

variable (d : Dialect) (scope : Option String) (left : Operand)

theorem bind_written (base : String) (v : Value) :
    (left.written d scope).bind d base v = (·.text d) <$> Binding.ofState (left.bind base v) := by
  have named : Binding.ofState (left.bind base v) =
      (fun name => Reference.parameter name ((left.stored v).kind = .json)) <$>
        Binding.assign base (left.stored v) := rfl
  rw [named, Functor.map_map]
  simp only [← WrittenOperand.reference_eq]
  exact bind_pure_comp _ _

theorem ofState_bindItems_cons (i : Nat) (v : Value) (rest : List Value) :
    Binding.ofState (left.bindItems i (v :: rest)) =
      (if v.isNull then pure .null
        else Binding.ofState (left.bind (left.parameterName ++ "_" ++ toString i) v)) >>= fun first =>
          (first :: ·) <$> Binding.ofState (left.bindItems (i + 1) rest) := by
  funext ps
  cases null : v.isNull with
  | true =>
    simp only [if_true, pure_bind, Binding.ofState, bindItems, null]
    rfl
  | false =>
    simp only [Binding.ofState, bindItems, null, Bool.false_eq_true, if_false]
    rfl

theorem bindItems_written (i : Nat) (items : List Value) :
    (left.written d scope).bindItems d i items =
      (List.map (·.text d)) <$> Binding.ofState (left.bindItems i items) := by
  induction items generalizing i with
  | nil => rfl
  | cons v rest ih =>
    have first : (left.written d scope).bindItem d i v = (·.text d) <$>
        if v.isNull then pure Reference.null
        else Binding.ofState (left.bind (left.parameterName ++ "_" ++ toString i) v) := by
      unfold WrittenOperand.bindItem
      split
      · rfl
      · exact left.bind_written d scope _ v
    rw [WrittenOperand.bindItems, ofState_bindItems_cons]
    refine Binding.bind_of_map first fun r => ?_
    rw [ih (i + 1), Functor.map_map, bind_pure_comp, Functor.map_map]
    rfl

end Operand

namespace Comparison

variable (d : Dialect) (scope : Option String) (c : Comparison) (left : Operand)

theorem writeNull_eq : c.writeNull d (left.text d scope) = (c.withNull left).text d scope := by
  unfold writeNull withNull
  cases c.operator <;> simp [Condition.text, Term.text, Reference.text, String.intercalate_singleton,
    String.append_assoc]

theorem writeNullSafe_eq (right : Reference) (negate : Bool) :
    writeNullSafe d (left.text d scope) (right.text d) negate =
      (Condition.nullSafe left right negate).text d scope := by
  cases negate <;> simp [writeNullSafe, Condition.nullSafe, Condition.text, Condition.texts, Term.text]

theorem writeRelation_eq (right : Reference) :
    c.writeRelation d (left.text d scope) (right.text d) = (c.relation left right).text d scope := by
  unfold writeRelation relation
  split
  · unfold containment
    cases c.negate <;> simp [Condition.text]
  · split
    · exact writeNullSafe_eq d scope left right c.negate
    · simp [Condition.text]

theorem writeList_eq (references : List Reference) :
    c.writeList d (left.text d scope) (references.map (·.text d)) =
      (Condition.member left c.negate references).text d scope := by
  rw [writeList, Condition.text]

theorem writeMembership_eq :
    c.writeMembership d (left.written d scope) =
      (·.text d scope) <$> Binding.ofState (c.membership left) := by
  -- In each case the condition is made of what binding gives.
  cases given : c.value with
  | array items =>
    cases items with
    | nil =>
      have same : Binding.ofState (c.membership left) = pure (.truth c.negate) := by
        funext ps
        simp only [Binding.ofState, membership, given]
        rfl
      rw [same, map_pure, Condition.text]
      simp only [writeMembership, given]
    | cons first rest =>
      have same : Binding.ofState (c.membership left) =
          Condition.member left c.negate <$> Binding.ofState (left.bindItems 0 (first :: rest)) := by
        funext ps
        simp only [Binding.ofState, membership, given]
        rfl
      rw [same, Functor.map_map]
      simp only [writeMembership, given, left.bindItems_written d scope, bind_pure_comp, Functor.map_map]
      simp only [← writeList_eq, Operand.written]
  | _ =>
    have same : Binding.ofState (c.membership left) = (fun r => Condition.member left c.negate [r]) <$>
        Binding.ofState (left.bind left.parameterName c.value) := by
      funext ps
      simp only [Binding.ofState, membership, given]
      rfl
    have named : (left.written d scope).name = left.parameterName := rfl
    rw [same, Functor.map_map]
    simp only [writeMembership, given, named, left.bind_written d scope, bind_pure_comp, Functor.map_map]
    simp only [← writeList_eq, Operand.written, List.map_cons, List.map_nil]

theorem writeCondition_eq :
    c.writeCondition d (left.written d scope) =
      (·.text d scope) <$> Binding.ofState (c.condition left) := by
  unfold writeCondition
  cases null : c.value.isNull with
  | true =>
    have same : Binding.ofState (c.condition left) = pure (c.withNull left) := by
      funext ps
      simp only [Binding.ofState, c.condition_null left null]
      rfl
    rw [same, map_pure, ← writeNull_eq]
    rfl
  | false =>
    simp only [Bool.false_eq_true, if_false]
    split
    · rename_i operator
      have same : c.condition left = c.membership left := funext (c.condition_member left null operator)
      rw [same, writeMembership_eq]
    · rename_i operator
      have same : Binding.ofState (c.condition left) =
          c.relation left <$> Binding.ofState (left.bind left.parameterName c.value) := by
        funext ps
        simp only [Binding.ofState, c.condition_relation left null operator]
        rfl
      have named : (left.written d scope).name = left.parameterName := rfl
      rw [same, named, left.bind_written d scope, bind_pure_comp, Functor.map_map, Functor.map_map]
      simp only [← writeRelation_eq, Operand.written]

theorem write_eq (schema : Schema) :
    c.write d scope schema = (·.text d scope) <$> c.compile schema := by
  refine Binding.bind_of_map ?_ fun left => c.writeCondition_eq d scope left
  rw [c.writeOperand_eq, Binding.ofExcept_map]

end Comparison

namespace Predicate

variable (d : Dialect) (scope : Option String) (schema : Schema)

mutual

theorem write_eq : ∀ p : Predicate, p.write d scope schema = (·.text d scope) <$> p.compile schema
  | .comparison c => c.write_eq d scope schema
  | .group k children => by
    rw [write, compile]
    refine Binding.bind_of_map (writeAll_eq children) fun conditions => ?_
    rw [map_pure, Condition.text]

theorem writeAll_eq : ∀ children : List Predicate,
    writeAll d scope schema children = Condition.texts d scope <$> compileAll schema children
  | [] => rfl
  | p :: rest => by
    rw [writeAll, compileAll]
    refine Binding.bind_of_map (write_eq p) fun first => ?_
    refine Binding.bind_of_map (writeAll_eq rest) fun others => ?_
    rw [map_pure, Condition.texts]

end

theorem writeFilter_eq (p : Option Predicate) :
    writeFilter d scope schema p = Condition.filterText d scope <$> compileFilter schema p := by
  cases p with
  | none => rfl
  | some p =>
    rw [writeFilter, compileFilter, write_eq, map_bind]
    exact (bind_pure_comp _ _).symm

end Predicate

end EntitySql
