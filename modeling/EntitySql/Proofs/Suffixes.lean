import Mathlib.Data.List.Forall2
import EntitySql.Proofs.Casing

/-! Suffixes of names. A suffix is looked for and taken off by the bytes of the texts, and that comes to the same
as taking it off by characters: a text that is cut and still ends in the suffix was cut between two
characters, and texts whose bytes are alike up to ASCII case are alike character by character. -/

set_option autoImplicit false

namespace EntitySql.Naming

open EntitySql.Text

/-! ## Letters -/

/-- The same character, or the same ASCII letter in the other case. -/
def SameLetter (c d : Char) : Prop :=
  c = d ∨ (c.isUpper = true ∧ d.toNat = c.toNat + 32) ∨ (d.isUpper = true ∧ c.toNat = d.toNat + 32)

instance : DecidableRel SameLetter := fun c d =>
  inferInstanceAs (Decidable (c = d ∨ (c.isUpper = true ∧ d.toNat = c.toNat + 32) ∨
    (d.isUpper = true ∧ c.toNat = d.toNat + 32)))

theorem isUpper_iff (c : Char) : c.isUpper = true ↔ 65 ≤ c.toNat ∧ c.toNat ≤ 90 := by
  have unfolded : c.isUpper = true ↔ 'A'.val ≤ c.val ∧ c.val ≤ 'Z'.val := decide_eq_true_iff
  rw [unfolded, UInt32.le_iff_toNat_le, UInt32.le_iff_toNat_le]
  rfl

theorem toLower_of_not_isUpper {c : Char} (small : c.isUpper = false) : c.toLower = c :=
  dif_neg (of_decide_eq_false small)

theorem toNat_toLower_of_isUpper {c : Char} (upper : c.isUpper = true) :
    c.toLower.toNat = c.toNat + 32 := by
  refine ascii_induction (P := fun c => c.isUpper = true → c.toLower.toNat = c.toNat + 32) ?_
    (toNat_lt_of_isUpper upper) upper
  decide

theorem toNat_toLower (c : Char) :
    c.toLower.toNat = if 65 ≤ c.toNat ∧ c.toNat ≤ 90 then c.toNat + 32 else c.toNat := by
  cases upper : c.isUpper with
  | false => rw [toLower_of_not_isUpper upper, if_neg ((isUpper_iff c).not.1 (by simp [upper]))]
  | true => rw [toNat_toLower_of_isUpper upper, if_pos ((isUpper_iff c).1 upper)]

theorem toLower_eq_iff (c d : Char) : c.toLower = d.toLower ↔ SameLetter c d := by
  rw [SameLetter, isUpper_iff, isUpper_iff, ← Char.toNat_inj, ← Char.toNat_inj, toNat_toLower, toNat_toLower]
  split <;> split <;> omega

theorem foldAscii_eq_iff (cs ds : List Char) :
    foldAscii cs = foldAscii ds ↔ List.Forall₂ SameLetter cs ds := by
  rw [← List.forall₂_eq_eq_eq, foldAscii, foldAscii, List.forall₂_map_left_iff,
    List.forall₂_map_right_iff]
  simp only [toLower_eq_iff]

/-! ## Bytes -/

def bytes (cs : List Char) : List UInt8 :=
  cs.flatMap String.utf8EncodeChar

def isContinuation (b : UInt8) : Bool :=
  0x80 ≤ b && b < 0xC0

/-- Between the first `n` bytes and the others, no character is cut. -/
def isBoundary (bs : List UInt8) (n : Nat) : Bool :=
  match bs[n]? with
  | some b => !isContinuation b
  | none => n = bs.length

def lowerByte (b : UInt8) : UInt8 :=
  if 0x41 ≤ b ∧ b ≤ 0x5A then b + 0x20 else b

@[simp]
theorem bytes_append (cs ds : List Char) : bytes (cs ++ ds) = bytes cs ++ bytes ds := by
  simp [bytes]

@[simp]
theorem bytes_cons (c : Char) (cs : List Char) : bytes (c :: cs) = String.utf8EncodeChar c ++ bytes cs := by
  simp [bytes]

theorem length_bytes (s : String) : (bytes s.toList).length = s.utf8ByteSize := by
  have encoded : s.toList.utf8Encode.size = s.utf8ByteSize := by rw [String.utf8Encode_toList]; rfl
  rw [← encoded, List.utf8Encode, bytes]
  simp

theorem bytes_injective {cs ds : List Char} (same : bytes cs = bytes ds) : cs = ds := by
  have encoded : cs.utf8Encode = ds.utf8Encode := congrArg List.toByteArray same
  rw [← String.toByteArray_ofList, ← String.toByteArray_ofList, String.toByteArray_inj] at encoded
  exact String.ofList_injective encoded

theorem isContinuation_iff (b : UInt8) : isContinuation b = true ↔ 0x80 ≤ b.toNat ∧ b.toNat < 0xC0 := by
  simp [isContinuation, UInt8.le_iff_toNat_le, UInt8.lt_iff_toNat_lt]

theorem isContinuation_of_mem (ns : List Nat) :
    ∀ b ∈ ns.map fun n => UInt8.ofNat (n % 64 + 128), isContinuation b = true := by
  intro b member
  obtain ⟨n, -, rfl⟩ := List.mem_map.1 member
  rw [isContinuation_iff, UInt8.toNat_ofNat']
  omega

theorem le_toNat_ofNat {n : Nat} (leads : 192 ≤ n) (byte : n < 256) : 192 ≤ (UInt8.ofNat n).toNat := by
  rw [UInt8.toNat_ofNat', Nat.mod_eq_of_lt byte]
  exact leads

/-- A character of ASCII is one byte of ASCII. Any other begins with a byte that says so, and goes on with
bytes that continue it. -/
theorem exists_utf8EncodeChar (c : Char) :
    ∃ lead rest, String.utf8EncodeChar c = lead :: rest ∧ (∀ b ∈ rest, isContinuation b = true) ∧
      (c.toNat < 128 ∧ lead.toNat < 128 ∨ 192 ≤ lead.toNat) := by
  simp only [String.utf8EncodeChar]
  let v := c.val.toNat
  -- One case for each length, with the continuations of that length.
  split
  · rename_i ascii
    have small : c.toNat < 128 := Nat.lt_succ_of_le ascii
    have value : (UInt8.ofNat v).toNat = c.toNat := Nat.mod_eq_of_lt (by omega)
    exact ⟨_, [], rfl, isContinuation_of_mem [], .inl ⟨small, by rw [value]; exact small⟩⟩
  · split
    · exact ⟨_, _, rfl, isContinuation_of_mem [v], .inr (le_toNat_ofNat (by omega) (by omega))⟩
    · split
      · exact ⟨_, _, rfl, isContinuation_of_mem [v / 64, v], .inr (le_toNat_ofNat (by omega) (by omega))⟩
      · exact ⟨_, _, rfl, isContinuation_of_mem [v / 4096, v / 64, v],
          .inr (le_toNat_ofNat (by omega) (by omega))⟩

theorem le_of_mem_utf8EncodeChar {c : Char} (large : 128 ≤ c.toNat) {b : UInt8}
    (member : b ∈ String.utf8EncodeChar c) : 128 ≤ b.toNat := by
  obtain ⟨lead, rest, shape, continued, leads⟩ := exists_utf8EncodeChar c
  rw [shape] at member
  rcases List.mem_cons.1 member with rfl | inside
  · omega
  · exact ((isContinuation_iff b).1 (continued b inside)).1

theorem lowerByte_of_le {b : UInt8} (large : 128 ≤ b.toNat) : lowerByte b = b := by
  refine if_neg fun ranged => ?_
  have upTo : b.toNat ≤ 0x5A := UInt8.le_iff_toNat_le.1 ranged.2
  omega

theorem map_lowerByte_utf8EncodeChar (c : Char) :
    (String.utf8EncodeChar c).map lowerByte = String.utf8EncodeChar c.toLower := by
  by_cases small : c.toNat < 128
  · refine ascii_induction
      (P := fun c => (String.utf8EncodeChar c).map lowerByte = String.utf8EncodeChar c.toLower) ?_ small
    decide
  · have large : 128 ≤ c.toNat := Nat.le_of_not_lt small
    have notUpper : c.isUpper = false := by
      rw [Bool.eq_false_iff, Ne, isUpper_iff]
      omega
    rw [toLower_of_not_isUpper notUpper]
    calc (String.utf8EncodeChar c).map lowerByte
        = (String.utf8EncodeChar c).map id :=
          List.map_congr_left fun b member => lowerByte_of_le (le_of_mem_utf8EncodeChar large member)
      _ = String.utf8EncodeChar c := List.map_id _

theorem map_lowerByte_bytes (cs : List Char) : (bytes cs).map lowerByte = bytes (foldAscii cs) := by
  induction cs with
  | nil => rfl
  | cons c cs ih =>
    have cons : foldAscii (c :: cs) = c.toLower :: foldAscii cs := rfl
    rw [bytes_cons, List.map_append, map_lowerByte_utf8EncodeChar, ih, cons, bytes_cons]

theorem map_lowerByte_eq_iff (cs ds : List Char) :
    (bytes cs).map lowerByte = (bytes ds).map lowerByte ↔ foldAscii cs = foldAscii ds := by
  rw [map_lowerByte_bytes, map_lowerByte_bytes]
  exact ⟨bytes_injective, congrArg bytes⟩

/-! ## Cutting -/

theorem cutAtByte_cons {n : Nat} (some_bytes : 0 < n) (c : Char) (cs : List Char) :
    cutAtByte n (c :: cs) =
      if c.utf8Size ≤ n then
        (cutAtByte (n - c.utf8Size) cs).map fun (head, tail) => (c :: head, tail)
      else none := by
  cases n with
  | zero => cases some_bytes
  | succ n => rfl

theorem length_bytes_cons (c : Char) (cs : List Char) :
    (bytes (c :: cs)).length = c.utf8Size + (bytes cs).length := by
  rw [bytes_cons, List.length_append, String.length_utf8EncodeChar]

theorem cutAtByte_append (head tail : List Char) :
    cutAtByte (bytes head).length (head ++ tail) = some (head, tail) := by
  induction head with
  | nil => simp [cutAtByte, bytes]
  | cons c head ih =>
    have some_bytes : 0 < c.utf8Size + (bytes head).length := Nat.add_pos_left c.utf8Size_pos _
    rw [length_bytes_cons, List.cons_append, cutAtByte_cons some_bytes,
      if_pos (Nat.le_add_right _ _), Nat.add_sub_cancel_left, ih]
    rfl

theorem length_of_cutAtByte {n : Nat} {cs head tail : List Char}
    (cut : cutAtByte n cs = some (head, tail)) : (bytes head).length = n := by
  induction cs generalizing n head with
  | nil =>
    cases n with
    | zero => cases cut; rfl
    | succ n => cases cut
  | cons c cs ih =>
    cases n with
    | zero => cases cut; rfl
    | succ n =>
      rw [cutAtByte_cons (Nat.succ_pos n)] at cut
      split at cut
      · obtain ⟨⟨inner, _⟩, found, same⟩ := Option.map_eq_some_iff.1 cut
        cases same
        rw [length_bytes_cons, ih found]
        omega
      · cases cut

theorem isBoundary_append_of_le {front bs : List UInt8} {n : Nat} (beyond : front.length ≤ n) :
    isBoundary (front ++ bs) n = isBoundary bs (n - front.length) := by
  rw [isBoundary, isBoundary, List.getElem?_append_right beyond, List.length_append]
  split
  · rfl
  · rw [decide_eq_decide]
    omega

/-- A byte boundary is where a text can be cut between characters. -/
theorem isBoundary_bytes (n : Nat) (cs : List Char) : isBoundary (bytes cs) n = (cutAtByte n cs).isSome := by
  induction cs generalizing n with
  | nil =>
    cases n with
    | zero => rfl
    | succ n => simp [isBoundary, bytes, cutAtByte]
  | cons c cs ih =>
    obtain ⟨lead, rest, shape, continued, leads⟩ := exists_utf8EncodeChar c
    have size : c.utf8Size = rest.length + 1 := by rw [← String.length_utf8EncodeChar, shape]; rfl
    rw [bytes_cons]
    cases n with
    | zero =>
      have begins : isContinuation lead = false := by
        rw [Bool.eq_false_iff, Ne, isContinuation_iff]
        omega
      simp [isBoundary, shape, begins, cutAtByte]
    | succ n =>
      rw [cutAtByte_cons (Nat.succ_pos n)]
      split
      · rename_i fits
        have beyond : (String.utf8EncodeChar c).length ≤ n + 1 := by rwa [String.length_utf8EncodeChar]
        rw [isBoundary_append_of_le beyond, String.length_utf8EncodeChar, ih, Option.isSome_map]
      · rename_i inside
        -- The byte behind the cut is one of the others of `c`.
        have within : n < rest.length := by omega
        have continues := continued _ (List.getElem_mem within)
        have found : (rest ++ bytes cs)[n]? = some rest[n] := by
          rw [List.getElem?_append_left within, List.getElem?_eq_getElem within]
        simp [isBoundary, shape, found, continues]

/-! ## Trimming -/

def difference? (m n : Nat) : Option Nat :=
  if n ≤ m then some (m - n) else none

/-- What is left of the bytes of `input` when those of `suffix` are taken off. There would be no result if a
negative difference came up. -/
def strippedBytes? (input suffix : String) : Option (List UInt8) :=
  let whole := bytes input.toList
  let ending := bytes suffix.toList
  if allBlank input || allBlank suffix || whole.length < ending.length then some whole
  else
    (difference? whole.length ending.length).map fun split =>
      if isBoundary whole split && (whole.drop split).map lowerByte = ending.map lowerByte then
        whole.take split
      else whole

theorem strippedBytes?_eq (input suffix : String) :
    strippedBytes? input suffix = some (bytes (stripSuffix input suffix).toList) := by
  unfold strippedBytes? stripSuffix
  simp only [length_bytes]
  split
  · rfl
  · rename_i guard
    have fits : suffix.utf8ByteSize ≤ input.utf8ByteSize := by
      by_contra short
      exact guard (by simp [Nat.lt_of_not_le short])
    rw [difference?, if_pos fits, Option.map_some, isBoundary_bytes]
    congr 1
    cases cut : cutAtByte (input.utf8ByteSize - suffix.utf8ByteSize) input.toList with
    | none => simp
    | some parts =>
      obtain ⟨head, tail⟩ := parts
      have joined := append_of_cutAtByte cut
      have size := length_of_cutAtByte cut
      have before : (bytes input.toList).take (input.utf8ByteSize - suffix.utf8ByteSize) = bytes head := by
        rw [joined, bytes_append, List.take_left' size]
      have after : (bytes input.toList).drop (input.utf8ByteSize - suffix.utf8ByteSize) = bytes tail := by
        rw [joined, bytes_append, List.drop_left' size]
      rw [before, after]
      -- Of characters on both sides, it is the same to compare the bytes.
      simp only [map_lowerByte_eq_iff, Option.isSome_some, Bool.true_and, decide_eq_true_eq]
      split
      · simp
      · rfl

/-- `input` is `head` and then the suffix, character by character up to ASCII case, and neither `input` nor
the suffix is blank. -/
structure Precedes (head input suffix : String) : Prop where
  visible : ∃ c ∈ input.toList, isBlank c = false
  suffix_visible : ∃ c ∈ suffix.toList, isBlank c = false
  ends : ∃ tail : String, input = head ++ tail ∧ List.Forall₂ SameLetter tail.toList suffix.toList

variable {head input suffix : String}

theorem allBlank_eq_false_iff {s : String} : allBlank s = false ↔ ∃ c ∈ s.toList, isBlank c = false := by
  simp [allBlank]

theorem utf8ByteSize_of_alike {s t : String} (alike : foldAscii s.toList = foldAscii t.toList) :
    s.utf8ByteSize = t.utf8ByteSize := by
  have lengths := congrArg List.length ((map_lowerByte_eq_iff _ _).2 alike)
  simpa only [List.length_map, length_bytes] using lengths

theorem Precedes.stripSuffix_eq (precedes : Precedes head input suffix) : stripSuffix input suffix = head := by
  obtain ⟨visible, suffix_visible, tail, joined, letters⟩ := precedes
  have alike : foldAscii tail.toList = foldAscii suffix.toList := (foldAscii_eq_iff _ _).2 letters
  have size : input.utf8ByteSize = head.utf8ByteSize + suffix.utf8ByteSize := by
    rw [joined, String.utf8ByteSize_append, utf8ByteSize_of_alike alike]
  have cut : cutAtByte (input.utf8ByteSize - suffix.utf8ByteSize) input.toList =
      some (head.toList, tail.toList) := by
    rw [size, Nat.add_sub_cancel, joined, String.toList_append, ← length_bytes, cutAtByte_append]
  have fits : ¬ input.utf8ByteSize < suffix.utf8ByteSize := by omega
  simp [stripSuffix, allBlank_eq_false_iff.2 visible, allBlank_eq_false_iff.2 suffix_visible, fits, cut, alike]

theorem stripSuffix_cases (input suffix : String) :
    stripSuffix input suffix = input ∨ Precedes (stripSuffix input suffix) input suffix := by
  unfold stripSuffix
  split
  · exact .inl rfl
  · rename_i guard
    simp only [Bool.or_eq_true, decide_eq_true_eq, not_or, Bool.not_eq_true] at guard
    split
    · rename_i front back cut
      split
      · rename_i alike
        refine .inr ⟨allBlank_eq_false_iff.1 guard.1.1, allBlank_eq_false_iff.1 guard.1.2,
          String.ofList back, ?_, ?_⟩
        · rw [← String.ofList_append, ← append_of_cutAtByte cut, String.ofList_toList]
        · rw [String.toList_ofList]
          exact (foldAscii_eq_iff _ _).1 alike
      · exact .inl rfl
    · exact .inl rfl

theorem stripSuffix_of_not_isBoundary
    (inside : isBoundary (bytes input.toList) (input.utf8ByteSize - suffix.utf8ByteSize) = false) :
    stripSuffix input suffix = input := by
  rw [isBoundary_bytes, Option.isSome_eq_false_iff, Option.isNone_iff_eq_none] at inside
  simp [stripSuffix, inside]

/-- **Suffixes are taken off character by character.** If a text ends in the suffix, up to ASCII case, and
neither of the two is blank, what stands before the suffix is left, and only one text stands there. In every
other case the text is left as it is. The same comes out when bytes are counted, cut and compared: no negative
difference comes up, and nothing is taken off by a cut inside a character. -/
theorem stripSuffix_takes_characters (input suffix : String) :
    (∀ head, Precedes head input suffix →
      stripSuffix input suffix = head ∧ ∀ other, Precedes other input suffix → other = head) ∧
    ((∀ head, ¬ Precedes head input suffix) → stripSuffix input suffix = input) ∧
    strippedBytes? input suffix = some (bytes (stripSuffix input suffix).toList) ∧
    (isBoundary (bytes input.toList) (input.utf8ByteSize - suffix.utf8ByteSize) = false →
      stripSuffix input suffix = input) := by
  refine ⟨fun head precedes => ⟨precedes.stripSuffix_eq, fun other also => ?_⟩, fun none_precedes => ?_,
    strippedBytes?_eq input suffix, stripSuffix_of_not_isBoundary⟩
  · rw [← also.stripSuffix_eq, precedes.stripSuffix_eq]
  · exact (stripSuffix_cases input suffix).resolve_right (none_precedes _)

/-- Letters outside of ASCII stay in a suffix, and a character may be longer than all of it. -/
theorem stripSuffix_takes_characters_umlaut :
    Precedes "Über" "ÜberENTItät" "entität" ∧ stripSuffix "ÜberENTItät" "entität" = "Über" ∧
      isBoundary (bytes "é".toList) 1 = false ∧ stripSuffix "é" "x" = "é" := by
  have letters : List.Forall₂ SameLetter "ENTItät".toList "entität".toList := by decide
  have precedes : Precedes "Über" "ÜberENTItät" "entität" :=
    ⟨⟨'b', by decide, by decide⟩, ⟨'e', by decide, by decide⟩, "ENTItät", by decide, letters⟩
  have inside : isBoundary (bytes "é".toList) 1 = false := by decide
  exact ⟨precedes, ((stripSuffix_takes_characters _ _).1 _ precedes).1, inside,
    (stripSuffix_takes_characters "é" "x").2.2.2 inside⟩

end EntitySql.Naming
