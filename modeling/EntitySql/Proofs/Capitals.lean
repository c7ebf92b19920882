import EntitySql.Proofs.Casing

/-! Capitals and their lower case. The two tables fit together but for capitals that have no lower case,
such as those of mathematical alphabets: each lower case is a text without capitals, and a capital without
one stands for itself. A name that is in snake case already is changed again where it has such a capital. -/

set_option autoImplicit false

namespace EntitySql.Text

/-! ## Runs that are apart -/

/-- How far members are from each other; a run with one member has no such distance. -/
def Run.stride (r : Run) : Nat :=
  if r.first = r.last then 0 else r.step

/-- One run ends before the other begins, or both keep to numbers of their own parity. -/
def Run.isApart (r u : Run) : Bool :=
  Nat.blt r.last u.first || Nat.blt u.last r.first ||
    (r.stride % 2 == 0 && u.stride % 2 == 0 && (r.first + u.first) % 2 == 1)

theorem Run.parity_of_contains {r : Run} (even : r.stride % 2 = 0) {n : Nat}
    (member : r.contains n = true) : n % 2 = r.first % 2 := by
  obtain ⟨lower, upper, steps⟩ := (r.contains_iff n).1 member
  unfold stride at even
  split at even
  · omega
  · have whole : 2 ∣ n - r.first :=
      Nat.dvd_trans (Nat.dvd_of_mod_eq_zero even) (Nat.dvd_of_mod_eq_zero steps)
    omega

theorem Run.contains_of_isApart {r u : Run} (apart : r.isApart u = true) {n : Nat}
    (member : r.contains n = true) : u.contains n = false := by
  have within := (r.contains_iff n).1 member
  rw [Bool.eq_false_iff]
  intro other
  have beside := (u.contains_iff n).1 other
  simp only [isApart, Bool.or_eq_true, Bool.and_eq_true, Nat.blt_eq, beq_iff_eq] at apart
  rcases apart with (before | behind) | ⟨⟨even, also⟩, odd⟩
  · omega
  · omega
  · have first := parity_of_contains even member
    have second := parity_of_contains also other
    omega

/-! ## The lower case of a character -/

def CaseRun.image (r : CaseRun) : Run :=
  ⟨(r.run.first + r.shift).toNat, (r.run.last + r.shift).toNat, r.run.step⟩

theorem lowercaseRuns_nonnegative : ∀ r ∈ lowercaseRuns, 0 ≤ (r.run.first : Int) + r.shift := by
  decide +kernel

/-- No lower case is among the capitals: the runs of both tables are compared pair by pair. -/
theorem lowercaseRuns_apart :
    (lowercaseRuns.all fun r => uppercaseRuns.all r.image.isApart) = true := by
  decide +kernel

theorem CaseRun.contains_image {r : CaseRun} (nonnegative : 0 ≤ (r.run.first : Int) + r.shift) {n : Nat}
    (member : r.run.contains n = true) : r.image.contains (n + r.shift).toNat = true := by
  obtain ⟨lower, upper, steps⟩ := (r.run.contains_iff n).1 member
  have distance : (n + r.shift).toNat - (r.run.first + r.shift).toNat = n - r.run.first := by omega
  refine (r.image.contains_iff _).2 ⟨?_, ?_, ?_⟩
  · simp only [image]
    omega
  · simp only [image]
    omega
  · simpa only [image, distance] using steps

theorem isUppercase_ofNat {n : Nat} (outside : ∀ u ∈ uppercaseRuns, u.contains n = false) :
    isUppercase (Char.ofNat n) = false := by
  by_cases valid : n.isValidChar
  · have char : Char.ofNat n = Char.ofNatAux n valid := dif_pos valid
    have number : (Char.ofNatAux n valid).toNat = n := rfl
    rw [isUppercase, char, number, List.any_eq_false]
    intro u known
    simp [outside u known]
  -- What is no character stands for the one numbered 0.
  · have char : Char.ofNat n = Char.ofNat 0 := dif_neg valid
    rw [char]
    decide +kernel

theorem isUppercase_of_mem_image {r : CaseRun} (listed : r ∈ lowercaseRuns) {n : Nat}
    (member : r.run.contains n = true) : isUppercase (Char.ofNat (n + r.shift).toNat) = false := by
  have apart := List.all_eq_true.1 lowercaseRuns_apart r listed
  have image := r.contains_image (lowercaseRuns_nonnegative r listed) member
  exact isUppercase_ofNat fun u known =>
    Run.contains_of_isApart (List.all_eq_true.1 apart u known) image

theorem lowercase_cases (c : Char) :
    lowercase c = [c] ∨ ∀ d ∈ lowercase c, isUppercase d = false := by
  unfold lowercase
  split
  · exact .inr (List.forall_mem_cons.2 ⟨by decide +kernel, List.forall_mem_singleton.2 (by decide +kernel)⟩)
  · split
    · rename_i r found
      right
      intro d member
      rw [List.mem_singleton.1 member]
      have member : r.run.contains c.toNat = true := by simpa using List.find?_some found
      exact isUppercase_of_mem_image (List.mem_of_find?_eq_some found) member
    · exact .inl rfl

theorem lowercase_ne_nil (c : Char) : lowercase c ≠ [] := by
  unfold lowercase
  split
  · simp
  · split <;> simp

end EntitySql.Text

namespace EntitySql.Naming

open EntitySql.Text

/-! ## Snake case again -/

def opened (c : Char) : List Char :=
  if isUppercase c then '_' :: lowered c else [c]

theorem snakeTail_eq_flatMap (cs : List Char) : snakeTail cs = cs.flatMap opened :=
  rfl

theorem snakeTail_append (cs ds : List Char) : snakeTail (cs ++ ds) = snakeTail cs ++ snakeTail ds :=
  List.flatMap_append

theorem one_le_length_opened (c : Char) : 1 ≤ (opened c).length := by
  unfold opened
  split <;> simp

theorem length_le_length_snakeTail (cs : List Char) : cs.length ≤ (snakeTail cs).length := by
  induction cs with
  | nil => exact Nat.le_refl 0
  | cons c cs ih =>
    have first := one_le_length_opened c
    simp only [snakeTail_eq_flatMap, List.flatMap_cons, List.length_append, List.length_cons] at ih ⊢
    omega

theorem snakeTail_eq_self_iff (cs : List Char) :
    snakeTail cs = cs ↔ ∀ c ∈ cs, isUppercase c = false := by
  induction cs with
  | nil => simp [snakeTail]
  | cons c cs ih =>
    rw [List.forall_mem_cons, snakeTail_eq_flatMap, List.flatMap_cons, opened]
    cases upper : isUppercase c with
    | false => simpa [snakeTail_eq_flatMap] using ih
    | true =>
      -- A capital makes the name longer, so it is not left as it is.
      have longer := length_le_length_snakeTail cs
      have shown : lowered c = lowercase c := if_pos upper
      have written := List.length_pos_iff.2 (lowercase_ne_nil c)
      refine ⟨fun same => ?_, fun plain => absurd plain.1 (by simp)⟩
      have lengths := congrArg List.length same
      simp only [if_true, shown, List.length_append, List.length_cons, ← snakeTail_eq_flatMap] at lengths
      omega

theorem isUppercase_opened_iff (c : Char) :
    (∀ d ∈ opened c, isUppercase d = false) ↔ (isUppercase c = true → lowercase c ≠ [c]) := by
  unfold opened lowered
  cases upper : isUppercase c with
  | false => simp [upper]
  | true =>
    have underscore : isUppercase '_' = false := by decide +kernel
    rw [if_pos rfl, if_pos rfl, List.forall_mem_cons]
    constructor
    · intro plain _ itself
      have capital := plain.2 c (by simp [itself])
      rw [upper] at capital
      cases capital
    · intro cased
      exact ⟨underscore, (lowercase_cases c).resolve_left (cased rfl)⟩

theorem snakeTail_snakeTail_iff (cs : List Char) :
    snakeTail (snakeTail cs) = snakeTail cs ↔
      ∀ c ∈ cs, isUppercase c = true → lowercase c ≠ [c] := by
  rw [snakeTail_eq_self_iff, snakeTail_eq_flatMap]
  simp only [List.mem_flatMap, forall_exists_index, and_imp, ← isUppercase_opened_iff]
  exact ⟨fun plain c member d shown => plain d c member shown,
    fun plain d c member shown => plain c member d shown⟩

theorem snakeChars_lowered_append (c : Char) (ds : List Char) :
    snakeChars (lowered c ++ ds) = lowered c ++ snakeTail ds := by
  cases upper : isUppercase c with
  | false =>
    have itself : lowered c = [c] := if_neg (by simp [upper])
    rw [itself, List.singleton_append, snakeChars_cons, itself]
  | true =>
    have shown : lowered c = lowercase c := if_pos upper
    -- A capital without a lower case stands for itself, and any other lower case has no capital.
    rcases lowercase_cases c with itself | plain
    · rw [shown, itself, List.singleton_append, snakeChars_cons, shown, itself]
    · rw [shown]
      cases chars : lowercase c with
      | nil => exact absurd chars (lowercase_ne_nil c)
      | cons first rest =>
        rw [chars, List.forall_mem_cons] at plain
        have kept : lowered first = [first] := if_neg (by simp [plain.1])
        rw [List.cons_append, snakeChars_cons, kept, snakeTail_append,
          (snakeTail_eq_self_iff rest).2 plain.2]
        rfl

/-- Snake case is taken once and for all, except of a name that has, behind its first character, a capital
without a lower case. -/
theorem snakeCase_snakeCase_iff (s : String) :
    snakeCase (snakeCase s) = snakeCase s ↔
      ∀ c ∈ s.toList.tail, isUppercase c = true → lowercase c ≠ [c] := by
  have texts : snakeCase (snakeCase s) = snakeCase s ↔
      snakeChars (snakeChars s.toList) = snakeChars s.toList := by
    simp only [snakeCase, String.toList_ofList, String.ofList_inj]
  rw [texts]
  cases s.toList with
  | nil => simp [snakeChars]
  | cons c cs =>
    rw [snakeChars_cons, snakeChars_lowered_append, List.append_cancel_left_eq, List.tail_cons]
    exact snakeTail_snakeTail_iff cs

/-- The double-struck C is a capital without a lower case. -/
theorem snakeCase_snakeCase_ne :
    snakeCase "x\u2102" = "x_\u2102" ∧ snakeCase (snakeCase "x\u2102") = "x__\u2102" ∧
      snakeCase (snakeCase "x\u2102") ≠ snakeCase "x\u2102" := by
  decide +kernel

end EntitySql.Naming
