import EntitySql.Proofs.OnePass
import EntitySql.Proofs.Sample

/-! Conjunctions put together two predicates at a time. A conjunction takes a further member into itself when
it stands on the left and is a member when it stands on the right, so each bracketing gives another tree.
They all compile alike: conjunctions are printed without parentheses, and members are compiled from left
to right. -/

set_option autoImplicit false

namespace EntitySql

namespace Binding

def appended (x y : Binding String) : Binding String := do
  let s ← x
  let t ← y
  return s ++ t

theorem appended_assoc (x y z : Binding String) :
    appended (appended x y) z = appended x (appended y z) := by
  simp only [appended, bind_assoc, pure_bind, String.append_assoc]

theorem appended_empty (x : Binding String) : appended x (return "") = x := by
  simp only [appended, pure_bind, String.append_empty, bind_pure]

theorem empty_appended (x : Binding String) : appended (return "") x = x := by
  simp only [appended, pure_bind, String.empty_append, bind_pure]

theorem eq_of_map_eq {α β : Type} {f : α → β} (injective : Function.Injective f) {x y : Binding α}
    (same : f <$> x = f <$> y) : x = y := by
  funext ps
  have there := congrFun same ps
  -- Runs that end in the same way are compared by what they end with, and no others agree.
  cases first : x ps with
  | ok a qs =>
    rw [map_of_ok first] at there
    cases second : y ps with
    | ok b rs =>
      rw [map_of_ok second] at there
      injection there with value left
      rw [injective value, left]
    | error e rs =>
      rw [map_of_error second] at there
      cases there
  | error e qs =>
    rw [map_of_error first] at there
    cases second : y ps with
    | ok b rs =>
      rw [map_of_ok second] at there
      cases there
    | error e' rs =>
      rw [map_of_error second] at there
      injection there with cause left
      rw [cause, left]

end Binding

def eachBehind (sign : String) (texts : List String) : String :=
  String.join (texts.map (sign ++ ·))

theorem eachBehind_cons (sign s : String) (rest : List String) :
    eachBehind sign (s :: rest) = sign ++ s ++ eachBehind sign rest := by
  simp [eachBehind]

theorem append_intercalate (sign s : String) (rest : List String) :
    sign ++ String.intercalate sign (s :: rest) = eachBehind sign (s :: rest) := by
  induction rest generalizing s with
  | nil => simp [eachBehind, String.intercalate_singleton]
  | cons t rest ih =>
    rw [String.intercalate_cons_cons, eachBehind_cons, ← ih t]
    simp only [String.append_assoc]

namespace Predicate

open Binding (appended)

mutual

/-- The members of a conjunction and of the conjunctions among them. An empty conjunction is printed, so
it counts as a member. -/
def conjuncts : Predicate → List Predicate
  | .comparison c => [.comparison c]
  | .group .or children => [.group .or children]
  | .group .and [] => [.group .and []]
  | .group .and (p :: rest) => conjuncts p ++ conjunctsOf rest

def conjunctsOf : List Predicate → List Predicate
  | [] => []
  | p :: rest => conjuncts p ++ conjunctsOf rest

end

theorem conjuncts_group {children : List Predicate} (nonempty : children ≠ []) :
    conjuncts (.group .and children) = conjunctsOf children := by
  cases children with
  | nil => exact absurd rfl nonempty
  | cons p rest => rw [conjuncts, conjunctsOf]

theorem conjunctsOf_singleton (p : Predicate) : conjunctsOf [p] = conjuncts p := by
  rw [conjunctsOf, conjunctsOf, List.append_nil]

theorem conjunctsOf_append (ps qs : List Predicate) :
    conjunctsOf (ps ++ qs) = conjunctsOf ps ++ conjunctsOf qs := by
  induction ps with
  | nil => rfl
  | cons p rest ih => rw [List.cons_append, conjunctsOf, conjunctsOf, ih, List.append_assoc]

theorem and_ne_empty (first second : Predicate) : first.and second ≠ .group .and [] := by
  cases first with
  | comparison c => simp [Predicate.and, combine]
  | group k children => cases k <;> simp [Predicate.and, combine]

/-- An empty conjunction on the left would disappear. -/
theorem conjuncts_and {first : Predicate} (nonempty : first ≠ .group .and []) (second : Predicate) :
    (first.and second).conjuncts = first.conjuncts ++ second.conjuncts := by
  have paired : (group .and [first, second]).conjuncts = first.conjuncts ++ second.conjuncts := by
    rw [conjuncts, conjunctsOf_singleton]
  -- Only a conjunction takes the second into itself; anything else is paired with it.
  cases first with
  | comparison c => exact paired
  | group k children =>
    cases k with
    | or => exact paired
    | and =>
      have some : children ≠ [] := fun empty => nonempty (by rw [empty])
      have taken : (group .and children).and second = .group .and (children ++ [second]) := rfl
      rw [taken, conjuncts_group (by simp), conjunctsOf_append, conjunctsOf_singleton, conjuncts_group some]

section

variable (d : Dialect) (scope : Option String) (schema : Schema)

def conjunctionSign : String :=
  " " ++ d.connective .and ++ " "

def writeBehind (p : Predicate) : Binding String :=
  (conjunctionSign d ++ ·) <$> p.write d scope schema

def writeAllBehind (ps : List Predicate) : Binding String :=
  eachBehind (conjunctionSign d) <$> writeAll d scope schema ps

theorem writeAllBehind_nil : writeAllBehind d scope schema [] = return "" :=
  rfl

theorem writeAllBehind_cons (p : Predicate) (rest : List Predicate) :
    writeAllBehind d scope schema (p :: rest) =
      appended (p.writeBehind d scope schema) (writeAllBehind d scope schema rest) := by
  simp only [writeAllBehind, writeBehind, appended, writeAll, map_bind, map_pure, bind_map_left,
    eachBehind_cons]

theorem writeAllBehind_singleton (p : Predicate) :
    writeAllBehind d scope schema [p] = p.writeBehind d scope schema := by
  rw [writeAllBehind_cons, writeAllBehind_nil, Binding.appended_empty]

theorem writeAllBehind_append (ps qs : List Predicate) :
    writeAllBehind d scope schema (ps ++ qs) =
      appended (writeAllBehind d scope schema ps) (writeAllBehind d scope schema qs) := by
  induction ps with
  | nil => rw [writeAllBehind_nil, Binding.empty_appended, List.nil_append]
  | cons p rest ih =>
    rw [List.cons_append, writeAllBehind_cons, writeAllBehind_cons, ih, Binding.appended_assoc]

theorem writeBehind_group (p : Predicate) (rest : List Predicate) :
    writeBehind d scope schema (.group .and (p :: rest)) = writeAllBehind d scope schema (p :: rest) := by
  have written (s : String) (others : List String) :
      conjunctionSign d ++ Condition.groupText d .and (s :: others) =
        eachBehind (conjunctionSign d) (s :: others) := append_intercalate _ s others
  simp only [writeBehind, writeAllBehind, write, writeAll, map_bind, map_pure, bind_assoc, pure_bind, written]

mutual

/-- Only the conjuncts and their order matter for what is written. -/
theorem writeBehind_eq_conjuncts : ∀ p : Predicate,
    p.writeBehind d scope schema = writeAllBehind d scope schema p.conjuncts
  | .comparison c => by rw [conjuncts, writeAllBehind_singleton]
  | .group .or children => by rw [conjuncts, writeAllBehind_singleton]
  | .group .and [] => by rw [conjuncts, writeAllBehind_singleton]
  | .group .and (p :: rest) => by
    rw [writeBehind_group, conjuncts, writeAllBehind_append, writeAllBehind_cons, writeBehind_eq_conjuncts p,
      writeAllBehind_eq_conjunctsOf rest]

theorem writeAllBehind_eq_conjunctsOf : ∀ children : List Predicate,
    writeAllBehind d scope schema children = writeAllBehind d scope schema (conjunctsOf children)
  | [] => rfl
  | p :: rest => by
    rw [conjunctsOf, writeAllBehind_append, writeAllBehind_cons, writeBehind_eq_conjuncts p,
      writeAllBehind_eq_conjunctsOf rest]

end

variable {schema}

theorem write_eq_of_conjuncts {p q : Predicate} (same : p.conjuncts = q.conjuncts) :
    p.write d scope schema = q.write d scope schema := by
  -- The sign before both texts is the same, so it can be taken away.
  have signed : p.writeBehind d scope schema = q.writeBehind d scope schema := by
    rw [writeBehind_eq_conjuncts, writeBehind_eq_conjuncts, same]
  exact Binding.eq_of_map_eq (fun s t equal => by simpa using equal) signed

end

/-- Predicates in an order, and how they are put together two at a time. -/
inductive Bracketing where
  | single (p : Predicate)
  | pair (first second : Bracketing)

namespace Bracketing

def members : Bracketing → List Predicate
  | .single p => [p]
  | .pair first second => first.members ++ second.members

def conjunction : Bracketing → Predicate
  | .single p => p
  | .pair first second => first.conjunction.and second.conjunction

theorem members_ne_nil (b : Bracketing) : b.members ≠ [] := by
  induction b with
  | single p => simp [members]
  | pair first second left _ => simp [members, left]

variable {b : Bracketing}

theorem conjunction_ne_empty (nonempty : ∀ p ∈ b.members, p ≠ .group .and []) :
    b.conjunction ≠ .group .and [] := by
  cases b with
  | single p => exact nonempty p (by simp [members])
  | pair first second => exact and_ne_empty _ _

theorem conjuncts_conjunction (nonempty : ∀ p ∈ b.members, p ≠ .group .and []) :
    b.conjunction.conjuncts = conjunctsOf b.members := by
  induction b with
  | single p => rw [conjunction, members, conjunctsOf_singleton]
  | pair first second left right =>
    simp only [members, List.mem_append] at nonempty
    have leftNonempty : ∀ p ∈ first.members, p ≠ .group .and [] := fun p inside => nonempty p (.inl inside)
    have rightNonempty : ∀ p ∈ second.members, p ≠ .group .and [] := fun p inside => nonempty p (.inr inside)
    rw [conjunction, members, conjuncts_and (conjunction_ne_empty leftNonempty), left leftNonempty,
      right rightNonempty, conjunctsOf_append]

end Bracketing

/-- However predicates are put together, in their order and two at a time, their conjunction compiles as the
one group of all of them does: to the same text or the same error, and with the same parameters. Only an
empty conjunction must not be among them, since it is lost on the left and printed elsewhere. -/
theorem bracketings_compile_alike (b : Bracketing) (nonempty : ∀ p ∈ b.members, p ≠ .group .and [])
    (d : Dialect) (scope : Option String) (schema : Schema) :
    Condition.text d scope <$> b.conjunction.compile schema =
      Condition.text d scope <$> (all b.members).compile schema := by
  rw [← write_eq, ← write_eq]
  refine write_eq_of_conjuncts d scope ?_
  rw [Bracketing.conjuncts_conjunction nonempty, all, conjuncts_group b.members_ne_nil]

/-- A conjunction that takes the others into itself, one that becomes a member, an empty one inside, and a
disjunction: the trees are different, and the texts are not. -/
theorem bracketings_compile_alike_nested :
    let b : Bracketing := .pair
      (.pair (.single (all [eq "Id" (.int 1), all []])) (.single (any [gt "Size" (.int 3), eq "Size" .null])))
      (.pair (.single (memberOf "Size" [.int 3, .null])) (.single (all [lt "Size" (.int 5)])))
    (∀ p ∈ b.members, p ≠ .group .and []) ∧ (b.conjunction == all b.members) = false ∧
      ∀ d scope schema, Condition.text d scope <$> b.conjunction.compile schema =
        Condition.text d scope <$> (all b.members).compile schema := by
  intro b
  have nonempty : ∀ p ∈ b.members, p ≠ .group .and [] := by
    simp [b, Bracketing.members, all, any, memberOf, compare]
  exact ⟨nonempty, by decide, bracketings_compile_alike b nonempty⟩

end Predicate

end EntitySql
