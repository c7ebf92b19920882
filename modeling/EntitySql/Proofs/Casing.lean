import Mathlib.Data.List.Nodup
import EntitySql.Naming

/-! Names in snake case: small letters and digits, in words between single underscores. The Pascal case of
such a name tells where its words start, so the name can be had back from it. -/

set_option autoImplicit false

namespace EntitySql.Naming

open EntitySql.Text

/-! ## Letters -/

def isWordChar (c : Char) : Bool :=
  c.isLower || c.isDigit

/-- What holds of the first 128 characters, one by one, holds of whatever is among them. -/
theorem ascii_induction {P : Char → Prop} (ascii : ∀ n : Fin 128, P (Char.ofNat n)) {c : Char}
    (small : c.toNat < 128) : P c := by
  have holds := ascii ⟨c.toNat, small⟩
  rwa [Char.ofNat_toNat] at holds

theorem toNat_lt_of_le {c greatest : Char} (small : greatest.toNat < 128) (upTo : c.val ≤ greatest.val) :
    c.toNat < 128 :=
  Nat.lt_of_le_of_lt (UInt32.le_iff_toNat_le.1 upTo) small

theorem toNat_lt_of_isUpper {c : Char} (upper : c.isUpper = true) : c.toNat < 128 := by
  have ranged : c.val ≥ 'A'.val ∧ c.val ≤ 'Z'.val := of_decide_eq_true upper
  exact toNat_lt_of_le (by decide) ranged.2

theorem toNat_lt_of_isLower {c : Char} (lower : c.isLower = true) : c.toNat < 128 := by
  have ranged : (decide (c.val ≥ 'a'.val) && decide (c.val ≤ 'z'.val)) = true := lower
  exact toNat_lt_of_le (by decide) (of_decide_eq_true (Bool.and_eq_true_iff.1 ranged).2)

theorem toNat_lt_of_isDigit {c : Char} (digit : c.isDigit = true) : c.toNat < 128 := by
  have ranged : (decide (c.val ≥ '0'.val) && decide (c.val ≤ '9'.val)) = true := digit
  exact toNat_lt_of_le (by decide) (of_decide_eq_true (Bool.and_eq_true_iff.1 ranged).2)

theorem toNat_lt_of_isWordChar {c : Char} (inside : isWordChar c = true) : c.toNat < 128 := by
  rcases Bool.or_eq_true_iff.1 inside with lower | digit
  · exact toNat_lt_of_isLower lower
  · exact toNat_lt_of_isDigit digit

theorem isUppercase_of_isWordChar {c : Char} (inside : isWordChar c = true) :
    isUppercase c = false := by
  refine ascii_induction (P := fun c => isWordChar c = true → isUppercase c = false) ?_
    (toNat_lt_of_isWordChar inside) inside
  decide +kernel

theorem lowered_toUpper {c : Char} (lower : c.isLower = true) :
    isUppercase c.toUpper = true ∧ lowered c.toUpper = [c] := by
  refine ascii_induction
    (P := fun c => c.isLower = true → isUppercase c.toUpper = true ∧ lowered c.toUpper = [c])
    ?_ (toNat_lt_of_isLower lower) lower
  decide +kernel

/-! ## Words -/

def isWord : List Char → Bool
  | [] => false
  | c :: cs => c.isLower && cs.all isWordChar

/-- Words, with one underscore between any two. -/
def isSnake (s : String) : Bool :=
  let (first, rest) := segments '_' s.toList
  isWord first && rest.all isWord

def snakeTail (cs : List Char) : List Char :=
  cs.flatMap fun c => if isUppercase c then '_' :: lowered c else [c]

theorem snakeChars_cons (c : Char) (cs : List Char) : snakeChars (c :: cs) = lowered c ++ snakeTail cs :=
  rfl

theorem snakeTail_cons_word {c : Char} (inside : isWordChar c = true) (cs : List Char) :
    snakeTail (c :: cs) = c :: snakeTail cs := by
  simp [snakeTail, isUppercase_of_isWordChar inside]

theorem snakeTail_cons_capital {c : Char} (lower : c.isLower = true) (cs : List Char) :
    snakeTail (c.toUpper :: cs) = '_' :: c :: snakeTail cs := by
  obtain ⟨upper, back⟩ := lowered_toUpper lower
  simp [snakeTail, upper, back]

/-- The rest of a name comes back from its Pascal case, whether it goes on inside of a word or opens
one; the underscore before an opened word comes back as well. -/
theorem snakeTail_pascalChars (cs : List Char)
    (later : (segments '_' cs).2.all isWord = true) :
    ((segments '_' cs).1.all isWordChar = true → snakeTail (pascalChars false cs) = cs) ∧
      (isWord (segments '_' cs).1 = true → snakeTail (pascalChars true cs) = '_' :: cs) := by
  -- An underscore shows only in the capital behind it, so the two claims need each other.
  induction cs with
  | nil => exact ⟨fun _ => rfl, fun word => absurd word (by decide)⟩
  | cons c cs ih =>
    by_cases separator : c = '_'
    · subst separator
      simp only [segments, if_pos, List.all_cons, Bool.and_eq_true] at later
      refine ⟨fun _ => ?_, fun word => ?_⟩
      · simpa [pascalChars] using (ih later.2).2 later.1
      · simp [segments, isWord] at word
    · simp only [segments, if_neg separator] at later
      refine ⟨fun inside => ?_, fun word => ?_⟩
      · simp only [segments, if_neg separator, List.all_cons, Bool.and_eq_true] at inside
        have rest : snakeTail (pascalChars false cs) = cs := (ih later).1 inside.2
        simp [pascalChars, separator, snakeTail_cons_word inside.1, rest]
      · simp only [segments, if_neg separator, isWord, Bool.and_eq_true] at word
        have rest : snakeTail (pascalChars false cs) = cs := (ih later).1 word.2
        simp [pascalChars, separator, snakeTail_cons_capital word.1, rest]

theorem snakeChars_pascalChars {cs : List Char} (first : isWord (segments '_' cs).1 = true)
    (later : (segments '_' cs).2.all isWord = true) : snakeChars (pascalChars true cs) = cs := by
  cases cs with
  | nil => rfl
  | cons c cs =>
    have opened : c ≠ '_' := by
      rintro rfl
      simp [segments, isWord] at first
    simp only [segments, if_neg opened, isWord, Bool.and_eq_true] at first later
    have rest : snakeTail (pascalChars false cs) = cs := (snakeTail_pascalChars cs later).1 first.2
    simp [pascalChars, opened, snakeChars_cons, (lowered_toUpper first.1).2, rest]

theorem snakeCase_pascalCase {s : String} (snake : isSnake s = true) :
    snakeCase (pascalCase s) = s := by
  simp only [isSnake, Bool.and_eq_true] at snake
  simp [snakeCase, pascalCase, snakeChars_pascalChars snake.1 snake.2]

theorem nodup_map_pascalCase {names : List String} (distinct : names.Nodup)
    (snake : ∀ name ∈ names, isSnake name = true) : (names.map pascalCase).Nodup := by
  refine distinct.map_on fun first mem second other same => ?_
  rw [← snakeCase_pascalCase (snake first mem), same, snakeCase_pascalCase (snake second other)]

end EntitySql.Naming
