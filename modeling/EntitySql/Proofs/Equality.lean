import EntitySql.Value

/-! Equality of values is symmetric and transitive, documents and floats included. It is not reflexive:
NaN is not equal to itself, nor is a value that holds one. All other values are. -/

set_option autoImplicit false

namespace EntitySql

open Float.Model (UnpackedFloat)
open Float.Model.UnpackedFloat (Sign)

/-- Zeros are alike whatever their sign, and other floats are alike when they are the same number. -/
inductive Alike : UnpackedFloat → UnpackedFloat → Prop where
  | infinity (s : Sign) : Alike (.infinity s) (.infinity s)
  | zero (s t : Sign) : Alike (.zero s) (.zero t)
  | finite (s : Sign) (mantissa : Nat) (exponent : Int) (positive : 0 < mantissa) :
      Alike (.finite s mantissa exponent positive) (.finite s mantissa exponent positive)

theorem Alike.symm {x y : UnpackedFloat} (alike : Alike x y) : Alike y x := by
  cases alike with
  | infinity s => exact .infinity s
  | zero s t => exact .zero t s
  | finite s m e positive => exact .finite s m e positive

theorem Alike.trans {x y z : UnpackedFloat} (first : Alike x y) (second : Alike y z) : Alike x z := by
  cases first with
  | infinity s => exact second
  | zero s t =>
    cases second with
    | zero _ u => exact .zero s u
  | finite s m e positive => exact second

theorem alike_of_compare {x y : UnpackedFloat} (same : x.compare y = some .eq) : Alike x y := by
  cases x with
  | notANumber => cases same
  | infinity s =>
    cases y with
    | infinity t =>
      cases s <;> cases t
      · exact .infinity _
      · exact absurd same (by decide)
      · exact absurd same (by decide)
      · exact .infinity _
    | zero t => cases s <;> cases same
    | finite t => cases s <;> cases same
    | notANumber => cases same
  | zero s =>
    cases y with
    | zero t => exact .zero s t
    | infinity t => cases t <;> cases same
    | finite t => cases t <;> cases same
    | notANumber => cases same
  | finite s m e positive =>
    cases y with
    | finite t n f _ =>
      -- Of numbers with one sign the exponents are compared first, and then the mantissas.
      have numbers (equal : (compare e f).then (compare m n) = .eq) : e = f ∧ m = n := by
        simpa [Ordering.then_eq_eq] using equal
      cases s with
      | positive =>
        cases t with
        | positive =>
          obtain ⟨rfl, rfl⟩ := numbers (Option.some.inj same)
          exact .finite _ _ _ _
        | negative => cases same
      | negative =>
        cases t with
        | positive => cases same
        | negative =>
          have swapped : ((compare e f).then (compare m n)).swap = .eq := Option.some.inj same
          obtain ⟨rfl, rfl⟩ := numbers (Ordering.swap_eq_eq.1 swapped)
          exact .finite _ _ _ _
    | infinity t => cases t <;> cases s <;> cases same
    | zero t => cases s <;> cases same
    | notANumber => cases same

theorem compare_of_alike {x y : UnpackedFloat} (alike : Alike x y) : x.compare y = some .eq := by
  cases alike with
  | infinity s => cases s <;> rfl
  | zero s t => rfl
  | finite s m e positive =>
    have numbers : (compare e e).then (compare m m) = .eq := by simp
    cases s with
    | positive => exact congrArg some numbers
    | negative => exact congrArg (some ·.swap) numbers

theorem float_beq_iff (x y : Float) : (x == y) = true ↔ Alike x.toModel.unpack y.toModel.unpack := by
  have unfolded : (x == y) = (x.toModel.unpack.compare y.toModel.unpack == some .eq) := rfl
  rw [unfolded, beq_iff_eq]
  exact ⟨alike_of_compare, compare_of_alike⟩

instance partialEquivFloat : PartialEquivBEq Float where
  symm same := (float_beq_iff _ _).2 ((float_beq_iff _ _).1 same).symm
  trans first second :=
    (float_beq_iff _ _).2 (((float_beq_iff _ _).1 first).trans ((float_beq_iff _ _).1 second))

theorem float_beq_self_iff (x : Float) : (x == x) = true ↔ x.isNaN = false := by
  have unfolded : x.isNaN = x.toModel.unpack.isNaN := rfl
  rw [float_beq_iff, unfolded]
  cases x.toModel.unpack with
  | notANumber =>
    constructor
    · intro alike
      cases alike
    · intro number
      cases number
  | infinity s => exact ⟨fun _ => rfl, fun _ => .infinity s⟩
  | zero s => exact ⟨fun _ => rfl, fun _ => .zero s s⟩
  | finite s m e positive => exact ⟨fun _ => rfl, fun _ => .finite s m e positive⟩

namespace Json

instance : PartialEquivBEq Number where
  symm {x y} same := by
    cases x <;> cases y
    · exact BEq.symm (α := Int) same
    · cases same
    · cases same
    · exact BEq.symm (α := Float) same
  trans {x y z} first second := by
    cases x <;> cases y
    · cases z
      · exact BEq.trans (α := Int) first second
      · cases second
    · cases first
    · cases first
    · cases z
      · cases second
      · exact BEq.trans (α := Float) first second

mutual

theorem beq_symm : ∀ {x y : Json}, beq x y = true → beq y x = true
  | .null, .null, _ => rfl
  | .bool _, .bool _, same => BEq.symm (α := Bool) same
  | .number _, .number _, same => BEq.symm (α := Number) same
  | .text _, .text _, same => BEq.symm (α := String) same
  | .array _, .array _, same => beqItems_symm same
  | .object _, .object _, same => beqMembers_symm same

theorem beqItems_symm : ∀ {xs ys : List Json}, beqItems xs ys = true → beqItems ys xs = true
  | [], [], _ => rfl
  | _ :: _, _ :: _, same => by
    simp only [beqItems, Bool.and_eq_true] at same ⊢
    exact ⟨beq_symm same.1, beqItems_symm same.2⟩

theorem beqMembers_symm : ∀ {xs ys : List (String × Json)},
    beqMembers xs ys = true → beqMembers ys xs = true
  | [], [], _ => rfl
  | (_, _) :: _, (_, _) :: _, same => by
    simp only [beqMembers, Bool.and_eq_true, beq_iff_eq] at same ⊢
    exact ⟨⟨same.1.1.symm, beq_symm same.1.2⟩, beqMembers_symm same.2⟩

end

mutual

theorem beq_trans : ∀ {x y z : Json}, beq x y = true → beq y z = true → beq x z = true
  | .null, .null, .null, _, _ => rfl
  | .bool _, .bool _, .bool _, first, second => BEq.trans (α := Bool) first second
  | .number _, .number _, .number _, first, second => BEq.trans (α := Number) first second
  | .text _, .text _, .text _, first, second => BEq.trans (α := String) first second
  | .array _, .array _, .array _, first, second => beqItems_trans first second
  | .object _, .object _, .object _, first, second => beqMembers_trans first second

theorem beqItems_trans : ∀ {xs ys zs : List Json},
    beqItems xs ys = true → beqItems ys zs = true → beqItems xs zs = true
  | [], [], [], _, _ => rfl
  | _ :: _, _ :: _, _ :: _, first, second => by
    simp only [beqItems, Bool.and_eq_true] at first second ⊢
    exact ⟨beq_trans first.1 second.1, beqItems_trans first.2 second.2⟩

theorem beqMembers_trans : ∀ {xs ys zs : List (String × Json)},
    beqMembers xs ys = true → beqMembers ys zs = true → beqMembers xs zs = true
  | [], [], [], _, _ => rfl
  | (_, _) :: _, (_, _) :: _, (_, _) :: _, first, second => by
    simp only [beqMembers, Bool.and_eq_true, beq_iff_eq] at first second ⊢
    exact ⟨⟨first.1.1.trans second.1.1, beq_trans first.1.2 second.1.2⟩,
      beqMembers_trans first.2 second.2⟩

end

instance : PartialEquivBEq Json where
  symm := beq_symm
  trans := beq_trans

def Number.isNaN : Number → Bool
  | .integer _ => false
  | .double x => x.isNaN

mutual

def hasNaN : Json → Bool
  | .number n => n.isNaN
  | .array items => itemsHaveNaN items
  | .object members => membersHaveNaN members
  | _ => false

def itemsHaveNaN : List Json → Bool
  | [] => false
  | x :: xs => hasNaN x || itemsHaveNaN xs

def membersHaveNaN : List (String × Json) → Bool
  | [] => false
  | (_, x) :: xs => hasNaN x || membersHaveNaN xs

end

theorem Number.beq_self_iff (n : Number) : (n == n) = true ↔ n.isNaN = false := by
  cases n with
  | integer m => exact ⟨fun _ => rfl, fun _ => BEq.rfl (α := Int)⟩
  | double x => exact float_beq_self_iff x

mutual

theorem beq_self_iff : ∀ x : Json, beq x x = true ↔ x.hasNaN = false
  | .null => by simp [beq, hasNaN]
  | .bool _ => by simp [beq, hasNaN]
  | .number n => by simp [beq, hasNaN, Number.beq_self_iff n]
  | .text _ => by simp [beq, hasNaN]
  | .array items => by simp [beq, hasNaN, beqItems_self_iff items]
  | .object members => by simp [beq, hasNaN, beqMembers_self_iff members]

theorem beqItems_self_iff : ∀ xs : List Json, beqItems xs xs = true ↔ itemsHaveNaN xs = false
  | [] => by simp [beqItems, itemsHaveNaN]
  | x :: xs => by simp [beqItems, itemsHaveNaN, beq_self_iff x, beqItems_self_iff xs]

theorem beqMembers_self_iff : ∀ xs : List (String × Json),
    beqMembers xs xs = true ↔ membersHaveNaN xs = false
  | [] => by simp [beqMembers, membersHaveNaN]
  | (_, x) :: xs => by simp [beqMembers, membersHaveNaN, beq_self_iff x, beqMembers_self_iff xs]

end

end Json

namespace Value

mutual

theorem beq_symm : ∀ {v w : Value}, beq v w = true → beq w v = true
  | .null, .null, _ => rfl
  | .bool _, .bool _, same => BEq.symm (α := Bool) same
  | .int _, .int _, same => BEq.symm (α := Int64) same
  | .float _, .float _, same => BEq.symm (α := Float) same
  | .text _, .text _, same => BEq.symm (α := String) same
  | .uuid _, .uuid _, same => BEq.symm (α := Uuid) same
  | .timestamp _, .timestamp _, same => BEq.symm (α := Timestamp) same
  | .json _, .json _, same => BEq.symm (α := Json) same
  | .array _, .array _, same => beqItems_symm same

theorem beqItems_symm : ∀ {vs ws : List Value}, beqItems vs ws = true → beqItems ws vs = true
  | [], [], _ => rfl
  | _ :: _, _ :: _, same => by
    simp only [beqItems, Bool.and_eq_true] at same ⊢
    exact ⟨beq_symm same.1, beqItems_symm same.2⟩

end

mutual

theorem beq_trans : ∀ {u v w : Value}, beq u v = true → beq v w = true → beq u w = true
  | .null, .null, .null, _, _ => rfl
  | .bool _, .bool _, .bool _, first, second => BEq.trans (α := Bool) first second
  | .int _, .int _, .int _, first, second => BEq.trans (α := Int64) first second
  | .float _, .float _, .float _, first, second => BEq.trans (α := Float) first second
  | .text _, .text _, .text _, first, second => BEq.trans (α := String) first second
  | .uuid _, .uuid _, .uuid _, first, second => BEq.trans (α := Uuid) first second
  | .timestamp _, .timestamp _, .timestamp _, first, second =>
    BEq.trans (α := Timestamp) first second
  | .json _, .json _, .json _, first, second => BEq.trans (α := Json) first second
  | .array _, .array _, .array _, first, second => beqItems_trans first second

theorem beqItems_trans : ∀ {us vs ws : List Value},
    beqItems us vs = true → beqItems vs ws = true → beqItems us ws = true
  | [], [], [], _, _ => rfl
  | _ :: _, _ :: _, _ :: _, first, second => by
    simp only [beqItems, Bool.and_eq_true] at first second ⊢
    exact ⟨beq_trans first.1 second.1, beqItems_trans first.2 second.2⟩

end

instance : PartialEquivBEq Value where
  symm := beq_symm
  trans := beq_trans

theorem isNull_of_beq {v w : Value} (same : (v == w) = true) : v.isNull = w.isNull := by
  cases v <;> cases w <;> first | rfl | cases same

mutual

def hasNaN : Value → Bool
  | .float x => x.isNaN
  | .json document => document.hasNaN
  | .array items => itemsHaveNaN items
  | _ => false

def itemsHaveNaN : List Value → Bool
  | [] => false
  | v :: rest => hasNaN v || itemsHaveNaN rest

end

mutual

theorem beq_self_iff : ∀ v : Value, beq v v = true ↔ v.hasNaN = false
  | .null => by simp [beq, hasNaN]
  | .bool _ => by simp [beq, hasNaN]
  | .int _ => by simp [beq, hasNaN]
  | .float x => by simp only [beq, hasNaN, float_beq_self_iff]
  | .text _ => by simp [beq, hasNaN]
  | .uuid _ => by simp [beq, hasNaN]
  | .timestamp _ => by simp [beq, hasNaN]
  | .json document => Json.beq_self_iff document
  | .array items => by simp [beq, hasNaN, beqItems_self_iff items]

theorem beqItems_self_iff : ∀ vs : List Value, beqItems vs vs = true ↔ itemsHaveNaN vs = false
  | [] => by simp [beqItems, itemsHaveNaN]
  | v :: rest => by simp [beqItems, itemsHaveNaN, beq_self_iff v, beqItems_self_iff rest]

end

end Value

end EntitySql
