import EntitySql.Value.Literal

/-! Literals read back. A literal tells where it ends: a text by a quote that is not doubled, a number by a
character that is no digit, an array by its bracket. So a literal at the front of a text is read as the
value it was written for, and what follows it is left alone, whatever the texts inside the value hold. -/

set_option autoImplicit false

namespace EntitySql

open Text (apostrophe doubleQuotes)

/-! ## The reader -/

namespace Literal

def readText : List Char → Option (List Char × List Char)
  | [] => none
  | [c] => if c = apostrophe then some ([], []) else none
  | c :: d :: cs =>
    if c = apostrophe then
      if d = apostrophe then (readText cs).map fun (text, rest) => (c :: text, rest)
      else some ([], d :: cs)
    else (readText (d :: cs)).map fun (text, rest) => (c :: text, rest)

def readDigits (cs : List Char) : Option (Nat × List Char) :=
  let digits := cs.takeWhile Char.isDigit
  if digits.isEmpty then none else some (Nat.ofDigitChars 10 digits 0, cs.dropWhile Char.isDigit)

def integer? (n : Int) : Option Value :=
  if Int64.minValue.toInt ≤ n ∧ n ≤ Int64.maxValue.toInt then some (.int (.ofInt n)) else none

def readInteger : List Char → Option (Value × List Char)
  | [] => none
  | c :: cs => do
    if c = '-' then
      let (size, rest) ← readDigits cs
      let v ← integer? (-size)
      return (v, rest)
    else
      let (size, rest) ← readDigits (c :: cs)
      let v ← integer? size
      return (v, rest)

def words : List (List Char × Value) :=
  [("NULL".toList, .null), ("TRUE".toList, .bool true), ("FALSE".toList, .bool false)]

def readWord (cs : List Char) : Option (Value × List Char) :=
  words.findSome? fun (word, v) => if word.isPrefixOf cs then some (v, cs.drop word.length) else none

mutual

/-- The literal at the front of a text, and what follows it. Each item of an array takes one off the bound. -/
def readWithin (bound : Nat) : List Char → Option (Value × List Char)
  | [] => none
  | c :: cs =>
    if c = apostrophe then (readText cs).map fun (text, rest) => (.text (String.ofList text), rest)
    else if c = '-' ∨ c.isDigit = true then readInteger (c :: cs)
    else if c ≠ '[' then readWord (c :: cs)
    else if cs.head? = some ']' then some (.array [], cs.tail)
    else
      match bound with
      | 0 => none
      | bound + 1 => do
        let (first, rest) ← readWithin bound cs
        let (others, rest) ← readFurther bound rest
        return (.array (first :: others), rest)

def readFurther (bound : Nat) : List Char → Option (List Value × List Char)
  | [] => none
  | c :: cs =>
    if c = ']' then some ([], cs)
    else if c = ',' ∧ cs.head? = some ' ' then
      match bound with
      | 0 => none
      | bound + 1 => do
        let (first, rest) ← readWithin bound cs.tail
        let (others, rest) ← readFurther bound rest
        return (first :: others, rest)
    else none

end

/-- There are fewer items than characters, so the bound is high enough. -/
def read (cs : List Char) : Option (Value × List Char) :=
  readWithin cs.length cs

/-- What follows can belong to no literal before it. -/
def IsApart (rest : List Char) : Prop :=
  ∀ c ∈ rest.head?, c ≠ apostrophe ∧ c.isDigit = false

/-! ## Texts and integers -/

theorem readText_doubleQuotes (chars : List Char) {rest : List Char} (apart : IsApart rest) :
    readText (doubleQuotes chars ++ apostrophe :: rest) = some (chars, rest) := by
  induction chars with
  | nil =>
    cases rest with
    | nil => simp [doubleQuotes, readText]
    | cons c rest =>
      have other : c ≠ apostrophe := (apart c rfl).1
      simp [doubleQuotes, readText, other]
  | cons c chars ih =>
    by_cases quote : c = apostrophe
    · simp [doubleQuotes, readText, quote, ih]
    · -- The character is not the last one: a quote comes behind it in any case.
      obtain ⟨d, more, shape⟩ : ∃ d more, doubleQuotes chars ++ apostrophe :: rest = d :: more := by
        cases doubleQuotes chars with
        | nil => exact ⟨_, _, rfl⟩
        | cons d ds => exact ⟨d, _, rfl⟩
      rw [shape] at ih
      simp [doubleQuotes, readText, quote, shape, ih]

theorem readDigits_toDigits (n : Nat) {rest : List Char} (apart : IsApart rest) :
    readDigits (Nat.toDigits 10 n ++ rest) = some (n, rest) := by
  have digits : ∀ c ∈ Nat.toDigits 10 n, c.isDigit = true :=
    fun c => Nat.isDigit_of_mem_toDigits (by decide) (by decide)
  have none_more : rest.takeWhile Char.isDigit = [] ∧ rest.dropWhile Char.isDigit = rest := by
    cases rest with
    | nil => exact ⟨rfl, rfl⟩
    | cons c rest => simp [(apart c rfl).2]
  have nonempty : (Nat.toDigits 10 n).isEmpty = false := by simp
  rw [readDigits, List.takeWhile_append_of_pos digits, List.dropWhile_append_of_pos digits,
    none_more.1, none_more.2, List.append_nil, nonempty, Nat.ofDigitChars_ten_toDigits]
  rfl

theorem integer?_toInt (n : Int64) : integer? n.toInt = some (.int n) := by
  have inside : Int64.minValue.toInt ≤ n.toInt ∧ n.toInt ≤ Int64.maxValue.toInt :=
    ⟨Int64.minValue_le_toInt n, Int64.toInt_le n⟩
  rw [integer?, if_pos inside, Int64.ofInt_toInt]

theorem toList_toString (n : Int) :
    (toString n).toList =
      if 0 ≤ n then Nat.toDigits 10 n.toNat else '-' :: Nat.toDigits 10 (-n).toNat := by
  rw [Int.toString_eq_repr, Int.repr_eq_if]
  split <;> simp [Nat.repr_eq_ofList_toDigits]

theorem exists_toDigits (n : Nat) :
    ∃ c cs, Nat.toDigits 10 n = c :: cs ∧ c.isDigit = true ∧ c ≠ '-' := by
  have nonempty : Nat.toDigits 10 n ≠ [] := Nat.toDigits_ne_nil
  obtain ⟨c, cs, shape⟩ := List.exists_cons_of_ne_nil nonempty
  have digit : c.isDigit = true :=
    Nat.isDigit_of_mem_toDigits (by decide) (by decide) (shape ▸ List.mem_cons_self)
  refine ⟨c, cs, shape, digit, ?_⟩
  rintro rfl
  exact absurd digit (by decide)

theorem readInteger_toString (n : Int64) {rest : List Char} (apart : IsApart rest) :
    readInteger ((toString n.toInt).toList ++ rest) = some (.int n, rest) := by
  rw [toList_toString]
  split
  · rename_i nonneg
    have size : ((n.toInt.toNat : Nat) : Int) = n.toInt := Int.toNat_of_nonneg nonneg
    obtain ⟨c, cs, shape, -, unsigned⟩ := exists_toDigits n.toInt.toNat
    have digits := readDigits_toDigits n.toInt.toNat apart
    rw [shape, List.cons_append] at digits
    rw [shape, List.cons_append, readInteger, if_neg unsigned, digits]
    simp only [Option.bind_eq_bind, Option.bind_some, size, integer?_toInt]
    rfl
  · rename_i negative
    have size : -(((-n.toInt).toNat : Nat) : Int) = n.toInt := by omega
    have digits := readDigits_toDigits (-n.toInt).toNat apart
    rw [List.cons_append, readInteger, if_pos rfl, digits]
    simp only [Option.bind_eq_bind, Option.bind_some, size, integer?_toInt]
    rfl

theorem exists_head_toString (n : Int) :
    ∃ c cs, (toString n).toList = c :: cs ∧ (c = '-' ∨ c.isDigit = true) := by
  rw [toList_toString]
  split
  · obtain ⟨c, cs, shape, digit, -⟩ := exists_toDigits n.toNat
    exact ⟨c, cs, shape, .inr digit⟩
  · exact ⟨'-', _, rfl, .inl rfl⟩

end Literal

/-! ## Arrays -/

namespace Value

mutual

/-- The literal tells the value. Other kinds of values are written as numbers or texts, too. -/
def isLegible : Value → Bool
  | .null | .bool _ | .int _ | .text _ => true
  | .float _ | .uuid _ | .timestamp _ | .json _ => false
  | .array items => areLegible items

def areLegible : List Value → Bool
  | [] => true
  | v :: rest => isLegible v && areLegible rest

end

def literalTail : List Value → List Char
  | [] => [']']
  | v :: rest => ',' :: ' ' :: v.literal.toList ++ literalTail rest

theorem toList_literal_array (v : Value) (rest : List Value) :
    (Value.array (v :: rest)).literal.toList = '[' :: v.literal.toList ++ literalTail rest := by
  have tail : ∀ items : List Value,
      (String.intercalate ", " (v.literal :: itemLiterals items) ++ "]").toList =
        v.literal.toList ++ literalTail items := by
    intro items
    induction items generalizing v with
    | nil => rw [itemLiterals, String.intercalate_singleton, String.toList_append]; rfl
    | cons w items ih =>
      rw [itemLiterals, String.intercalate_cons_cons, String.append_assoc, String.append_assoc,
        String.toList_append, String.toList_append, ih w]
      rfl
  rw [literal, itemLiterals, String.append_assoc, String.toList_append, tail]
  rfl

end Value

namespace Literal

open Value (literalTail)

theorem isApart_literalTail (items : List Value) (rest : List Char) : IsApart (literalTail items ++ rest) := by
  intro c first
  cases items with
  | nil =>
    cases first
    decide
  | cons v items =>
    cases first
    decide

theorem readWithin_word {word : List Char} {v : Value} (listed : (word, v) ∈ words) (bound : Nat)
    (rest : List Char) : readWithin bound (word ++ rest) = some (v, rest) := by
  simp only [words, List.mem_cons, List.not_mem_nil, or_false, Prod.mk.injEq] at listed
  rcases listed with ⟨rfl, rfl⟩ | ⟨rfl, rfl⟩ | ⟨rfl, rfl⟩ <;> cases bound <;> rfl

theorem readWithin_int (n : Int64) (bound : Nat) {rest : List Char} (apart : IsApart rest) :
    readWithin bound ((Value.int n).literal.toList ++ rest) = some (.int n, rest) := by
  have whole := readInteger_toString n apart
  obtain ⟨c, cs, shape, numeric⟩ := exists_head_toString n.toInt
  have noText : c ≠ apostrophe := by
    rintro rfl
    exact absurd numeric (by decide)
  rw [shape, List.cons_append] at whole
  rw [Value.literal, shape, List.cons_append, readWithin.eq_def]
  exact (if_neg noText).trans ((if_pos numeric).trans whole)

theorem readWithin_text (s : String) (bound : Nat) {rest : List Char} (apart : IsApart rest) :
    readWithin bound ((Value.text s).literal.toList ++ rest) = some (.text s, rest) := by
  have shape : (Value.text s).literal.toList ++ rest =
      apostrophe :: (doubleQuotes s.toList ++ apostrophe :: rest) := by
    simp [Value.literal, Text.quoted]
  rw [shape, readWithin.eq_def]
  simp [readText_doubleQuotes s.toList apart]

/-- No literal begins with the end of an array. -/
theorem readWithin_closing {cs : List Char} (closing : cs.head? = some ']') (bound : Nat) :
    readWithin bound cs = none := by
  obtain ⟨rest, rfl⟩ := List.head?_eq_some_iff.1 closing
  cases bound <;> rfl

theorem readWithin_items {bound : Nat} {cs rest final : List Char} {first : Value} {others : List Value}
    (head : readWithin bound cs = some (first, rest)) (tail : readFurther bound rest = some (others, final)) :
    readWithin (bound + 1) ('[' :: cs) = some (.array (first :: others), final) := by
  have more : cs.head? ≠ some ']' := by
    intro closing
    rw [readWithin_closing closing] at head
    cases head
  rw [readWithin, if_neg (by decide), if_neg (by decide), if_neg (by decide), if_neg more]
  simp only [head, tail, Option.bind_eq_bind, Option.bind_some, Option.pure_def]

theorem readFurther_item {bound : Nat} {cs rest final : List Char} {first : Value} {others : List Value}
    (head : readWithin bound cs = some (first, rest)) (tail : readFurther bound rest = some (others, final)) :
    readFurther (bound + 1) (',' :: ' ' :: cs) = some (first :: others, final) := by
  rw [readFurther, if_neg (by decide), if_pos ⟨rfl, rfl⟩]
  simp only [List.tail_cons, head, tail, Option.bind_eq_bind, Option.bind_some, Option.pure_def]

mutual

theorem readWithin_literal : ∀ {v : Value}, v.isLegible = true → ∀ {bound : Nat},
    v.literal.toList.length ≤ bound → ∀ {rest : List Char}, IsApart rest →
    readWithin bound (v.literal.toList ++ rest) = some (v, rest)
  | .null, _, bound, _, rest, _ => readWithin_word (.head _) bound rest
  | .bool true, _, bound, _, rest, _ => readWithin_word (.tail _ (.head _)) bound rest
  | .bool false, _, bound, _, rest, _ => readWithin_word (.tail _ (.tail _ (.head _))) bound rest
  | .int n, _, bound, _, _, apart => readWithin_int n bound apart
  | .text s, _, bound, _, _, apart => readWithin_text s bound apart
  | .array [], _, bound, _, _, _ => by cases bound <;> rfl
  | .array (v :: items), legible, bound, enough, rest, _ => by
    simp only [Value.isLegible, Value.areLegible, Bool.and_eq_true] at legible
    rw [Value.toList_literal_array] at enough ⊢
    simp only [List.cons_append, List.length_cons, List.length_append] at enough
    obtain ⟨bound, rfl⟩ := Nat.exists_eq_add_of_le' (Nat.one_le_of_lt enough)
    have enoughHead : v.literal.toList.length ≤ bound := by omega
    have enoughTail : (literalTail items).length ≤ bound := by omega
    have head := readWithin_literal legible.1 enoughHead (isApart_literalTail items rest)
    have tail := readFurther_literalTail legible.2 enoughTail rest
    rw [List.cons_append, List.cons_append, List.append_assoc]
    exact readWithin_items head tail

theorem readFurther_literalTail : ∀ {items : List Value}, Value.areLegible items = true →
    ∀ {bound : Nat}, (literalTail items).length ≤ bound → ∀ rest : List Char,
    readFurther bound (literalTail items ++ rest) = some (items, rest)
  | [], _, bound, _, _ => by cases bound <;> rfl
  | v :: items, legible, bound, enough, rest => by
    simp only [Value.areLegible, Bool.and_eq_true] at legible
    simp only [literalTail, List.cons_append, List.length_cons, List.length_append] at enough
    obtain ⟨bound, rfl⟩ := Nat.exists_eq_add_of_le' (Nat.one_le_of_lt enough)
    have enoughHead : v.literal.toList.length ≤ bound := by omega
    have enoughTail : (literalTail items).length ≤ bound := by omega
    have head := readWithin_literal legible.1 enoughHead (isApart_literalTail items rest)
    have tail := readFurther_literalTail legible.2 enoughTail rest
    have shape : literalTail (v :: items) ++ rest =
        ',' :: ' ' :: (v.literal.toList ++ (literalTail items ++ rest)) := by
      simp [literalTail]
    rw [shape]
    exact readFurther_item head tail

end

end Literal

namespace Value

variable {v : Value} {rest : List Char}

theorem read_literal (legible : v.isLegible = true) (apart : Literal.IsApart rest) :
    Literal.read (v.literal.toList ++ rest) = some (v, rest) :=
  Literal.readWithin_literal legible (by simp) apart

/-- A literal is read as its value, up to its end and no further, if a quote or a digit does not come next.
So of two values whose literals begin the same text, each followed by something of that sort, one is the
other: no value is written as another one is, and nothing in a text ends its literal before the end. -/
theorem literal_reads_back (legible : v.isLegible = true) (apart : Literal.IsApart rest) :
    Literal.read (v.literal.toList ++ rest) = some (v, rest) ∧
      ∀ w more, w.isLegible = true → Literal.IsApart more →
        w.literal.toList ++ more = v.literal.toList ++ rest → w = v ∧ more = rest := by
  have first := read_literal legible apart
  refine ⟨first, fun w more legible apart same => ?_⟩
  have second := read_literal legible apart
  rw [same, first] at second
  cases second
  exact ⟨rfl, rfl⟩

/-- The text holds what looks like its own end, like a word and like the end of the array. -/
theorem literal_reads_back_nested :
    let v : Value := .array [.text "a', NULL]", .array [], .int (-7)]
    let rest := ", 'b']".toList
    v.isLegible = true ∧ Literal.IsApart rest ∧ Literal.read (v.literal.toList ++ rest) = some (v, rest) ∧
      ∀ w more, w.isLegible = true → Literal.IsApart more →
        w.literal.toList ++ more = v.literal.toList ++ rest → w = v ∧ more = rest := by
  intro v rest
  have legible : v.isLegible = true := rfl
  have apart : Literal.IsApart rest := by
    intro c first
    cases first
    decide
  exact ⟨legible, apart, literal_reads_back legible apart⟩

end Value

end EntitySql
