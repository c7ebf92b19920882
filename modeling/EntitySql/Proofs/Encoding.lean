import EntitySql.Value.Document
import EntitySql.Proofs.References

/-! What a document keeps of an array. Every item, however deep it lies, has its place in the document, and
it is the item that stands there. The conversion always gives a document: a float for which JSON has no
number becomes a null, and that is not reported. Nothing else is lost. -/

set_option autoImplicit false

namespace EntitySql

def Json.Lacks (x : Float) : Prop :=
  x.isNaN = true ∨ x.isInf = true

theorem Json.isFinite_eq_true_iff (x : Float) : x.isFinite = true ↔ ¬ Json.Lacks x := by
  have finite : x.isFinite = x.toModel.unpack.isFinite := rfl
  have nan : x.isNaN = x.toModel.unpack.isNaN := rfl
  have infinite : x.isInf = x.toModel.unpack.isInf := rfl
  rw [Json.Lacks, finite, nan, infinite]
  cases x.toModel.unpack with
  | notANumber => exact iff_of_false Bool.false_ne_true (not_not_intro (.inl rfl))
  | infinity => exact iff_of_false Bool.false_ne_true (not_not_intro (.inr rfl))
  | zero | finite => exact iff_of_true rfl (not_or_intro Bool.false_ne_true Bool.false_ne_true)

namespace Value

inductive Inside (v : Value) : Value → Prop where
  | whole : Inside v v
  | item {item : Value} {items : List Value} (listed : item ∈ items) (inside : Inside v item) :
      Inside v (.array items)

/-- The document stands for the value, and in an array item for item. A float that may be lost can also
stand as a null. -/
inductive StandsFor (mayLose : Float → Prop) : Json → Value → Prop where
  | null : StandsFor mayLose .null .null
  | bool (b : Bool) : StandsFor mayLose (.bool b) (.bool b)
  | int (n : Int64) : StandsFor mayLose (.number (.integer n.toInt)) (.int n)
  | float {x : Float} (number : ¬ Json.Lacks x) : StandsFor mayLose (.number (.double x)) (.float x)
  | lost {x : Float} (granted : mayLose x) : StandsFor mayLose .null (.float x)
  | text (s : String) : StandsFor mayLose (.text s) (.text s)
  | uuid (u : Uuid) : StandsFor mayLose (.text u.text) (.uuid u)
  | timestamp (t : Timestamp) :
      StandsFor mayLose (.text (t.text Timestamp.documentZone)) (.timestamp t)
  | json (document : Json) : StandsFor mayLose document (.json document)
  | array {documents : List Json} {items : List Value}
      (each : List.Forall₂ (StandsFor mayLose) documents items) :
      StandsFor mayLose (.array documents) (.array items)

variable {mayLose : Float → Prop}

mutual

/-- What the conversion gives stands for the value, if the floats that JSON lacks may be lost. -/
theorem standsFor_toJson : ∀ {v : Value}, (∀ x, Inside (.float x) v → Json.Lacks x → mayLose x) →
    StandsFor mayLose v.toJson v
  | .null, _ => .null
  | .bool b, _ => .bool b
  | .int n, _ => .int n
  | .float x, granted => by
    unfold toJson
    split
    · rename_i finite
      exact .float ((Json.isFinite_eq_true_iff x).1 finite)
    · rename_i infinite
      rw [Json.isFinite_eq_true_iff, not_not] at infinite
      exact .lost (granted x .whole infinite)
  | .text s, _ => .text s
  | .uuid u, _ => .uuid u
  | .timestamp t, _ => .timestamp t
  | .json document, _ => .json document
  | .array _, granted => .array (stand_itemsToJson fun _ listed x inside => granted x (.item listed inside))

theorem stand_itemsToJson : ∀ {items : List Value},
    (∀ v ∈ items, ∀ x, Inside (.float x) v → Json.Lacks x → mayLose x) →
    List.Forall₂ (StandsFor mayLose) (itemsToJson items) items
  | [], _ => .nil
  | v :: rest, granted =>
    .cons (standsFor_toJson (granted v (.head rest)))
      (stand_itemsToJson fun w listed => granted w (.tail v listed))

end

mutual

theorem StandsFor.eq_toJson (only : ∀ x, mayLose x → Json.Lacks x) :
    ∀ {v : Value} {document : Json}, StandsFor mayLose document v → document = v.toJson
  | .float x, _, .float number => by
    rw [toJson, if_pos ((Json.isFinite_eq_true_iff x).2 number)]
  | .float x, _, .lost granted => by
    have infinite : ¬ x.isFinite = true := by
      rw [Json.isFinite_eq_true_iff, not_not]
      exact only x granted
    rw [toJson, if_neg infinite]
  | .array _, _, .array each => congrArg Json.array (eq_itemsToJson only each)
  | .null, _, .null | .bool _, _, .bool _ | .int _, _, .int _ | .text _, _, .text _ | .uuid _, _, .uuid _
  | .timestamp _, _, .timestamp _ | .json _, _, .json _ => rfl

theorem eq_itemsToJson (only : ∀ x, mayLose x → Json.Lacks x) :
    ∀ {items : List Value} {documents : List Json}, List.Forall₂ (StandsFor mayLose) documents items →
      documents = itemsToJson items
  | [], _, .nil => rfl
  | _ :: _, _, .cons first others => by
    rw [itemsToJson, first.eq_toJson only, eq_itemsToJson only others]

end

theorem StandsFor.granted {v : Value} {document : Json} (stands : StandsFor mayLose document v) {x : Float}
    (inside : Inside (.float x) v) (lacks : Json.Lacks x) : mayLose x := by
  induction inside generalizing document with
  | whole =>
    cases stands with
    | float number => exact absurd lacks number
    | lost granted => exact granted
  | item listed _ ih =>
    cases stands with
    | array each =>
      obtain ⟨_, _, part⟩ := exists_of_forall₂ each.flip listed
      exact ih part

theorem standsFor_array_iff {documents : List Json} {items : List Value} :
    StandsFor mayLose (.array documents) (.array items) ↔
      List.Forall₂ (StandsFor mayLose) documents items :=
  ⟨fun | .array each => each, .array⟩

theorem standsFor_iff (only : ∀ x, mayLose x → Json.Lacks x) {document : Json} {v : Value} :
    StandsFor mayLose document v ↔
      document = v.toJson ∧ ∀ x, Inside (.float x) v → Json.Lacks x → mayLose x := by
  constructor
  · exact fun stands => ⟨stands.eq_toJson only, fun x inside lacks => stands.granted inside lacks⟩
  · rintro ⟨rfl, granted⟩
    exact standsFor_toJson granted

/-- An array always becomes a document, an array with an item for each of its own. An item stands in its
place as what it is, however deep it lies, save for the floats that JSON lacks, which become nulls. So if
there is no such float inside, and only then, the document stands for the array without loss; no other
document ever does. -/
theorem document_keeps_items (items : List Value) :
    ∃ documents, (Value.array items).toDocument = .json (.array documents) ∧
      List.Forall₂ (StandsFor Json.Lacks) documents items ∧
      ∀ others, List.Forall₂ (StandsFor fun _ => False) others items ↔
        others = documents ∧ ∀ x, Inside (.float x) (.array items) → ¬ Json.Lacks x := by
  refine ⟨itemsToJson items, rfl, stand_itemsToJson fun _ _ _ _ lacks => lacks, fun others => ?_⟩
  have nothing (x : Float) : False → Json.Lacks x := False.elim
  rw [← standsFor_array_iff, standsFor_iff nothing, toJson, Json.array.injEq]

/-- A NaN is neither kept nor reported. -/
theorem nan_becomes_null :
    Inside (.float (0 / 0)) (.array [.float (0 / 0)]) ∧ Json.Lacks (0 / 0) ∧
      (Value.array [.float (0 / 0)]).toDocument = .json (.array [.null]) := by
  refine ⟨.item (.head _) .whole, .inl rfl, ?_⟩
  rfl

end Value

end EntitySql
