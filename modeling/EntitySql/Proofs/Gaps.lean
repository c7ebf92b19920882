import EntitySql.Proofs.Spacing

/-! White space outside quotations. A text is given by the characters that are kept and by the gaps of white
space around them. Spacing keeps the characters, and of the gaps between them it keeps where they are: each
becomes a single space, and those at the ends go. -/

set_option autoImplicit false

namespace EntitySql.Text

/-! ## Characters that are kept, and gaps -/

structure Mark where
  char : Char
  quoted : Bool
  deriving DecidableEq

def quotationAfter (inside : Option Char) (c : Char) : Option Char :=
  match inside with
  | some q => if c = q then none else some q
  | none => if opensQuotation c then some c else none

/-- The characters of a text that begins in a quotation, or in none. Quotes stand in their quotation. -/
def markFrom (inside : Option Char) : List Char → List Mark
  | [] => []
  | c :: cs => ⟨c, inside.isSome || opensQuotation c⟩ :: markFrom (quotationAfter inside c) cs

def Mark.isKept (m : Mark) : Bool :=
  m.quoted || !isBlank m.char

def keptFrom (inside : Option Char) (cs : List Char) : List Mark :=
  (markFrom inside cs).filter Mark.isKept

/-- The white space before each of the characters that are kept, and the white space behind the last. -/
def gapsFrom (inside : Option Char) (cs : List Char) : List (List Char) :=
  ((markFrom inside cs).splitOnP Mark.isKept).map (·.map Mark.char)

def kept (s : String) : List Mark :=
  keptFrom none s.toList

def gaps (s : String) : List (List Char) :=
  gapsFrom none s.toList

theorem map_char_markFrom (inside : Option Char) (cs : List Char) :
    (markFrom inside cs).map Mark.char = cs := by
  induction cs generalizing inside with
  | nil => rfl
  | cons c cs ih => rw [markFrom, List.map_cons, ih]

variable {inside : Option Char} {c : Char} {cs : List Char}

theorem gapsFrom_nil : gapsFrom inside [] = [[]] := by
  simp [gapsFrom, markFrom, List.splitOnP_nil]

theorem gapsFrom_ne_nil : gapsFrom inside cs ≠ [] := by
  simp [gapsFrom, List.splitOnP_ne_nil]

theorem gapsFrom_eq_cons (inside : Option Char) (cs : List Char) :
    ∃ gap others, gapsFrom inside cs = gap :: others :=
  List.exists_cons_of_ne_nil gapsFrom_ne_nil

theorem gapsFrom_cons_kept (isKept : Mark.isKept ⟨c, inside.isSome || opensQuotation c⟩ = true) :
    gapsFrom inside (c :: cs) = [] :: gapsFrom (quotationAfter inside c) cs := by
  simp [gapsFrom, markFrom, List.splitOnP_cons_eq_if_modifyHead, isKept]

theorem not_opensQuotation_of_isBlank (blank : isBlank c = true) : opensQuotation c = false := by
  rw [Bool.eq_false_iff]
  intro opens
  simp only [opensQuotation, Bool.or_eq_true, decide_eq_true_eq] at opens
  rcases opens with rfl | rfl <;> exact absurd blank (by decide)

theorem gapsFrom_cons_blank (blank : isBlank c = true) :
    gapsFrom none (c :: cs) = (gapsFrom none cs).modifyHead (c :: ·) := by
  have plain := not_opensQuotation_of_isBlank blank
  obtain ⟨first, rest, shape⟩ :=
    List.exists_cons_of_ne_nil (List.splitOnP_ne_nil Mark.isKept (markFrom none cs))
  simp [gapsFrom, markFrom, List.splitOnP_cons_eq_if_modifyHead, Mark.isKept, blank, plain, quotationAfter,
    shape]

theorem keptFrom_cons_kept (isKept : Mark.isKept ⟨c, inside.isSome || opensQuotation c⟩ = true) :
    keptFrom inside (c :: cs) =
      ⟨c, inside.isSome || opensQuotation c⟩ :: keptFrom (quotationAfter inside c) cs := by
  rw [keptFrom, markFrom, List.filter_cons_of_pos isKept, keptFrom]

theorem keptFrom_cons_blank (blank : isBlank c = true) : keptFrom none (c :: cs) = keptFrom none cs := by
  have plain := not_opensQuotation_of_isBlank blank
  simp [keptFrom, markFrom, Mark.isKept, blank, plain, quotationAfter]

theorem length_gapsFrom (inside : Option Char) (cs : List Char) :
    (gapsFrom inside cs).length = (keptFrom inside cs).length + 1 := by
  induction cs generalizing inside with
  | nil => simp [gapsFrom_nil, keptFrom, markFrom]
  | cons c cs ih =>
    by_cases isKept : Mark.isKept ⟨c, inside.isSome || opensQuotation c⟩ = true
    · rw [gapsFrom_cons_kept isKept, keptFrom_cons_kept isKept, List.length_cons, List.length_cons, ih]
    · simp only [Mark.isKept, Bool.or_eq_true, not_or, Bool.not_eq_true, Option.isSome_eq_false_iff,
        Option.isNone_iff_eq_none, Bool.not_eq_true', Bool.not_eq_false] at isKept
      obtain ⟨⟨rfl, -⟩, blank⟩ := isKept
      rw [gapsFrom_cons_blank blank, keptFrom_cons_blank blank, List.length_modifyHead, ih]

theorem flatten_gaps_kept (s : String) :
    (List.zipWith (· ++ ·) (gaps s) ((kept s).map (fun m => [m.char]) ++ [[]])).flatten = s.toList := by
  have parts := congrArg (List.map Mark.char) (List.splitOnP_spec (p := Mark.isKept) (markFrom none s.toList))
  rw [map_char_markFrom, List.map_flatten, List.map_zipWith] at parts
  have characters : (kept s).map (fun m => [m.char]) ++ [[]] =
      ((kept s).map (fun m => [m]) ++ [[]]).map (List.map Mark.char) := by
    simp
  rw [← parts, characters, gaps, gapsFrom, List.zipWith_map, kept, keptFrom]
  simp only [List.map_append]

theorem eq_of_kept_of_gaps {s t : String} (same : kept s = kept t) (around : gaps s = gaps t) : s = t := by
  rw [← String.toList_inj, ← flatten_gaps_kept s, ← flatten_gaps_kept t, same, around]

/-! ## What spacing makes of them -/

def single (gap : List Char) : List Char :=
  if gap.isEmpty then [] else [' ']

def settleInner : List (List Char) → List (List Char)
  | [] => []
  | [_] => [[]]
  | gap :: next :: rest => single gap :: settleInner (next :: rest)

def settle (all : List (List Char)) : List (List Char) :=
  [] :: settleInner all.tail

theorem settleInner_cons (gap : List Char) {rest : List (List Char)} (more : rest ≠ []) :
    settleInner (gap :: rest) = single gap :: settleInner rest := by
  cases rest with
  | nil => exact absurd rfl more
  | cons next rest => rfl

theorem settleInner_cons_of_ne_nil {first second : List Char} (some_first : first ≠ [])
    (some_second : second ≠ []) (rest : List (List Char)) :
    settleInner (first :: rest) = settleInner (second :: rest) := by
  cases rest with
  | nil => rfl
  | cons next rest => simp [settleInner, single, some_first, some_second]

theorem settleInner_ne_nil (gap : List Char) (rest : List (List Char)) : settleInner (gap :: rest) ≠ [] := by
  cases rest <;> simp [settleInner]

theorem single_single (gap : List Char) : single (single gap) = single gap := by
  cases gap <;> rfl

theorem settleInner_settleInner (all : List (List Char)) :
    settleInner (settleInner all) = settleInner all := by
  induction all with
  | nil => rfl
  | cons gap rest ih =>
    cases rest with
    | nil => rfl
    | cons next rest =>
      rw [settleInner, settleInner_cons _ (settleInner_ne_nil next rest), ih, single_single]

theorem settle_settle (all : List (List Char)) : settle (settle all) = settle all := by
  rw [settle, settle, List.tail_cons, settleInner_settleInner]

theorem mem_settleInner {all : List (List Char)} {gap : List Char} (member : gap ∈ settleInner all) :
    gap = [] ∨ gap = [' '] := by
  induction all with
  | nil => cases member
  | cons first rest ih =>
    cases rest with
    | nil => exact .inl (List.mem_singleton.1 member)
    | cons next rest =>
      rcases List.mem_cons.1 member with rfl | further
      · cases first
        · exact .inl rfl
        · exact .inr rfl
      · exact ih further

theorem getLast?_settleInner (gap : List Char) (rest : List (List Char)) :
    (settleInner (gap :: rest)).getLast? = some [] := by
  induction rest generalizing gap with
  | nil => rfl
  | cons next rest ih =>
    rw [settleInner_cons gap (List.cons_ne_nil next rest), List.getLast?_cons, ih, Option.getD_some]

theorem getLast?_settle (all : List (List Char)) : (settle all).getLast? = some [] := by
  rw [settle, List.getLast?_cons]
  cases all.tail with
  | nil => rfl
  | cons gap rest => rw [getLast?_settleInner, Option.getD_some]

theorem getElem?_settleInner {all : List (List Char)} {i : Nat} (before : i + 1 < all.length) :
    (settleInner all)[i]? = all[i]?.map single := by
  induction all generalizing i with
  | nil => simp at before
  | cons first rest ih =>
    cases rest with
    | nil => simp at before
    | cons next rest =>
      cases i with
      | zero => rfl
      | succ i =>
        rw [settleInner, List.getElem?_cons_succ, List.getElem?_cons_succ]
        exact ih (by simpa using before)

theorem getElem?_settle {all : List (List Char)} {i : Nat} (behind : 0 < i) (before : i + 1 < all.length) :
    (settle all)[i]? = all[i]?.map single := by
  obtain ⟨i, rfl⟩ := Nat.exists_eq_add_of_lt behind
  cases all with
  | nil => simp at before
  | cons first rest =>
    rw [Nat.zero_add] at before ⊢
    rw [settle, List.getElem?_cons_succ, List.getElem?_cons_succ]
    exact getElem?_settleInner (by simpa using before)

namespace Scan

/-- White space that was passed is written only outside quotations and behind something else. -/
def IsSound (s : Scan) : Prop :=
  s.gap = true → s.inside = none ∧ s.started = true

def passed (s : Scan) : List Char :=
  if s.gap then [' '] else []

/-- A character is kept, behind a space if white space was passed, or it is white space itself. -/
theorem step_cases {s : Scan} (sound : s.IsSound) (c : Char) :
    (s.inside = none ∧ isBlank c = true ∧ s.emit c = [] ∧ s.step c = ⟨none, s.started, s.started⟩) ∨
    (Mark.isKept ⟨c, s.inside.isSome || opensQuotation c⟩ = true ∧ s.emit c = s.passed ++ [c] ∧
      s.step c = ⟨quotationAfter s.inside c, true, false⟩) := by
  obtain ⟨inside, started, gap⟩ := s
  cases inside with
  | some q =>
    cases gap with
    | false => exact .inr ⟨rfl, rfl, rfl⟩
    | true => cases (sound rfl).1
  | none =>
    cases blank : isBlank c with
    | true => exact .inl ⟨rfl, rfl, by simp [emit, blank], by simp [step, blank]⟩
    | false =>
      refine .inr ⟨by simp [Mark.isKept, blank], ?_, by simp [step, blank, quotationAfter]⟩
      cases gap <;> simp [emit, passed, blank]

theorem isSound_step {s : Scan} (sound : s.IsSound) (c : Char) : (s.step c).IsSound := by
  rcases step_cases sound c with ⟨-, -, -, next⟩ | ⟨-, -, next⟩
  · rw [next]
    exact fun started => ⟨rfl, started⟩
  · rw [next]
    exact fun never => by cases never

end Scan

theorem keptFrom_passed {s : Scan} (sound : s.IsSound) (cs : List Char) :
    keptFrom s.inside (s.passed ++ cs) = keptFrom s.inside cs := by
  unfold Scan.passed
  split
  · rw [(sound ‹_›).1]
    exact keptFrom_cons_blank (by decide)
  · rfl

theorem gapsFrom_passed {s : Scan} (sound : s.IsSound) (cs : List Char) :
    gapsFrom s.inside (s.passed ++ cs) = (gapsFrom s.inside cs).modifyHead (s.passed ++ ·) := by
  unfold Scan.passed
  split
  · rw [(sound ‹_›).1]
    exact gapsFrom_cons_blank (by decide)
  · obtain ⟨first, rest, shape⟩ := gapsFrom_eq_cons s.inside cs
    simp [shape]

/-- Spacing keeps all characters but white space outside quotations, in quotations or out of them as they
were. -/
theorem keptFrom_squeeze {s : Scan} (sound : s.IsSound) (cs : List Char) :
    keptFrom s.inside (s.squeeze cs) = keptFrom s.inside cs := by
  induction cs generalizing s with
  | nil => rfl
  | cons c cs ih =>
    have rest := ih (Scan.isSound_step sound c)
    rw [Scan.squeeze_cons]
    rcases Scan.step_cases sound c with ⟨outside, blank, emitted, next⟩ | ⟨isKept, emitted, next⟩
    · rw [next] at rest
      rw [emitted, next, outside, List.nil_append, rest, keptFrom_cons_blank blank]
    · rw [next] at rest
      rw [emitted, next, List.append_assoc, keptFrom_passed sound, List.singleton_append,
        keptFrom_cons_kept isKept, keptFrom_cons_kept isKept, rest]

theorem modifyHead_passed {s : Scan} (closed : s.gap = false) (all : List (List Char)) :
    all.modifyHead (s.passed ++ ·) = all := by
  have nothing : s.passed = [] := by simp [Scan.passed, closed]
  cases all <;> simp [nothing]

/-- Behind something that was written, white space that was passed before counts to the first gap. -/
theorem gapsFrom_squeeze {s : Scan} (sound : s.IsSound) (started : s.started = true) (cs : List Char) :
    gapsFrom s.inside (s.squeeze cs) =
      settleInner ((gapsFrom s.inside cs).modifyHead (s.passed ++ ·)) := by
  induction cs generalizing s with
  | nil =>
    have written : s.squeeze [] = [] := rfl
    rw [written, gapsFrom_nil]
    rfl
  | cons c cs ih =>
    have rest := ih (Scan.isSound_step sound c) (Scan.started_step started c)
    rw [Scan.squeeze_cons]
    rcases Scan.step_cases sound c with ⟨outside, blank, emitted, next⟩ | ⟨isKept, emitted, next⟩
    · obtain ⟨gap, others, shape⟩ := gapsFrom_eq_cons none cs
      rw [next, started] at rest
      rw [emitted, next, started, outside, List.nil_append, rest, gapsFrom_cons_blank blank, shape]
      -- The scan holds one space for the gap, and the text has at least this one character in it.
      exact settleInner_cons_of_ne_nil (by simp [Scan.passed]) (by simp) others
    · have space : single s.passed = s.passed := by
        unfold Scan.passed
        split <;> rfl
      rw [next, modifyHead_passed rfl] at rest
      rw [emitted, next, List.append_assoc, gapsFrom_passed sound, List.singleton_append,
        gapsFrom_cons_kept isKept, gapsFrom_cons_kept isKept, rest, List.modifyHead_cons,
        List.modifyHead_cons, List.append_nil, settleInner_cons _ gapsFrom_ne_nil, space]

theorem Scan.isSound_start : Scan.start.IsSound :=
  fun never => by cases never

theorem gapsFrom_squeeze_start (cs : List Char) :
    gapsFrom none (Scan.start.squeeze cs) = settle (gapsFrom none cs) := by
  induction cs with
  | nil =>
    have written : Scan.start.squeeze [] = [] := rfl
    rw [written, gapsFrom_nil]
    rfl
  | cons c cs ih =>
    rw [Scan.squeeze_cons]
    rcases Scan.step_cases Scan.isSound_start c with ⟨-, blank, emitted, next⟩ | ⟨isKept, emitted, next⟩
    -- White space at the start is dropped; behind the first character the general lemma applies.
    · obtain ⟨gap, others, shape⟩ := gapsFrom_eq_cons none cs
      have stays : Scan.start.step c = Scan.start := next
      rw [shape] at ih
      rw [emitted, stays, List.nil_append, ih, gapsFrom_cons_blank blank, shape]
      rfl
    · have rest := gapsFrom_squeeze (Scan.isSound_step Scan.isSound_start c) (by rw [next]) cs
      have alone : Scan.start.emit c = [c] := emitted
      have outside : Scan.start.inside = none := rfl
      rw [next, modifyHead_passed rfl, outside] at rest
      rw [outside] at isKept
      rw [alone, next, outside, List.singleton_append, settle, gapsFrom_cons_kept isKept,
        gapsFrom_cons_kept isKept, List.tail_cons, rest]

/-! ## Spacing -/

theorem kept_normalizeSpaces (s : String) : kept (normalizeSpaces s) = kept s := by
  rw [kept, normalizeSpaces, String.toList_ofList]
  exact keptFrom_squeeze Scan.isSound_start s.toList

theorem gaps_normalizeSpaces (s : String) : gaps (normalizeSpaces s) = settle (gaps s) := by
  rw [gaps, normalizeSpaces, String.toList_ofList]
  exact gapsFrom_squeeze_start s.toList

/-- The second text is the first with its white space normalised: the same characters are kept, and the gaps
are settled. -/
structure Respaced (raw text : String) : Prop where
  kept : kept text = kept raw
  gaps : gaps text = settle (gaps raw)

theorem respaced_iff {raw text : String} : Respaced raw text ↔ text = normalizeSpaces raw := by
  constructor
  · rintro ⟨same, settled⟩
    refine eq_of_kept_of_gaps (same.trans (kept_normalizeSpaces raw).symm) ?_
    rw [settled, gaps_normalizeSpaces]
  · rintro rfl
    exact ⟨kept_normalizeSpaces raw, gaps_normalizeSpaces raw⟩

example : gaps " a  'b c' " = [[' '], [' ', ' '], [], [], [], [], [' ']] ∧
    gaps (normalizeSpaces " a  'b c' ") = [[], [' '], [], [], [], [], []] := by
  decide

/-- Spacing is cosmetic. It keeps all characters but white space outside quotations; of that it leaves single
spaces between them, where there was any, and nothing at the ends; and it changes nothing any more when
it is done again. -/
theorem normalizeSpaces_cosmetic (s : String) :
    kept (normalizeSpaces s) = kept s ∧
      (∀ gap ∈ gaps (normalizeSpaces s), gap = [] ∨ gap = [' ']) ∧
      (gaps (normalizeSpaces s)).head? = some [] ∧ (gaps (normalizeSpaces s)).getLast? = some [] ∧
      (∀ i, 0 < i → i < (kept s).length →
        ((gaps (normalizeSpaces s))[i]? = some [' '] ↔ ∃ gap, (gaps s)[i]? = some gap ∧ gap ≠ [])) ∧
      normalizeSpaces (normalizeSpaces s) = normalizeSpaces s := by
  rw [gaps_normalizeSpaces]
  refine ⟨kept_normalizeSpaces s, fun gap member => ?_, rfl, getLast?_settle _, fun i behind before => ?_, ?_⟩
  · rcases List.mem_cons.1 member with first | inner
    · exact .inl first
    · exact mem_settleInner inner
  · have among : i + 1 < (gaps s).length := by
      rw [gaps, length_gapsFrom]
      exact Nat.succ_lt_succ before
    rw [getElem?_settle behind among]
    simp [single]
  · refine eq_of_kept_of_gaps (kept_normalizeSpaces _) ?_
    rw [gaps_normalizeSpaces, gaps_normalizeSpaces, settle_settle]

end EntitySql.Text
