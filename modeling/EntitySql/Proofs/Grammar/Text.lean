import EntitySql.Proofs.Grammar.Atom
import EntitySql.Proofs.Grammar.Chain

/-! Texts of tokens and of phrases. What separates the parts of a text is read as such, so a text is read
part by part. -/

set_option autoImplicit false

namespace EntitySql.Grammar

theorem Ends.word {rest : List Char} (ends : Ends rest) : ∀ c ∈ rest.head?, isWordChar c = false := by
  intro c head
  rcases ends c head with rfl | rfl | rfl | rfl <;> decide

theorem Ends.symbol {rest : List Char} (ends : Ends rest) :
    ∀ c ∈ rest.head?, isSymbolChar c = false ∧ isParameterChar c = false := by
  intro c head
  rcases ends c head with rfl | rfl | rfl | rfl <;> decide

theorem Ends.quote {rest : List Char} (ends : Ends rest) : ∀ c ∈ rest.head?, c ≠ Text.apostrophe := by
  intro c head
  rcases ends c head with rfl | rfl | rfl | rfl <;> decide

theorem ends_nil : Ends [] := by
  intro c head
  cases head

theorem ends_cons {c : Char} (separates : c = ' ' ∨ c = ')' ∨ c = ',' ∨ c = ':') (cs : List Char) :
    Ends (c :: cs) := by
  intro d head
  cases head
  exact separates

theorem lexes_word {text : String} (nonempty : text ≠ "")
    (word : text.toList.all isWordChar = true) : Lexes text [.ofWord text] :=
  fun _ ends => lexFrom_word nonempty word ends.word

theorem lexes_keyword (k : Keyword) : Lexes k.text [.keyword k] := by
  have nonempty : k.text ≠ "" := by cases k <;> decide
  have word : k.text.toList.all isWordChar = true := by cases k <;> decide
  have read : Token.ofWord k.text = .keyword k := by cases k <;> decide
  rw [← read]
  exact lexes_word nonempty word

theorem lexes_symbol {text : String} (nonempty : text ≠ "")
    (symbol : text.toList.all isSymbolChar = true) : Lexes text [.symbol text] :=
  fun _ ends => lexFrom_symbol nonempty symbol ends.symbol

theorem lexes_parameter {name : String} (nonempty : name ≠ "")
    (plain : ∀ c ∈ name.toList, isParameterChar c = true) : Lexes ("@" ++ name) [.parameter name] := by
  intro rest ends
  cases chars : name.toList with
  | nil => exact absurd (String.toList_eq_nil_iff.1 chars) nonempty
  | cons c cs =>
    rw [chars] at plain
    have own : isParameterChar c = true := plain c (by simp)
    have started : Scan.start? '@' = some (.symbol ['@']) := rfl
    -- Up to here the sign could still be an operator.
    have named : Scan.extend? c (.symbol ['@']) = some (.parameter [c]) := by
      have apart : isSymbolChar c = false := by
        cases symbol : isSymbolChar c with
        | false => rfl
        | true =>
          have notWord := isWordChar_of_isSymbolChar symbol
          simp only [isWordChar, Bool.or_eq_false_iff] at notWord
          simp only [isParameterChar, notWord.1.1.1, Bool.or_self] at own
          cases own
      simp [Scan.extend?, own, apart]
    have run := lexFrom_run Scan.parameter isParameterChar
      (fun read d belongs => by simp [Scan.extend?, belongs])
      cs (fun d member => plain d (List.mem_cons_of_mem c member)) [c] rest
    have finished : (Scan.parameter (c :: cs)).finish? = some [Token.parameter name] := by
      simp [Scan.finish?, ← chars]
    have ended : ∀ d ∈ rest.head?, Scan.extend? d (.parameter (c :: cs)) = none := by
      intro d head
      have apart : isParameterChar d = false := (ends.symbol d head).2
      simp [Scan.extend?, apart]
    have shape : ("@" ++ name).toList ++ rest = '@' :: c :: (cs ++ rest) := by
      simp [chars]
    have first : lexFrom (.symbol ['@']) (c :: (cs ++ rest)) = lexFrom (.parameter [c]) (cs ++ rest) := by
      rw [lexFrom, named]
    rw [shape, lexFrom_started started, first, run]
    exact lexFrom_finished finished ended

theorem lexFrom_typeCast (cs : List Char) :
    lexFrom .between (':' :: ':' :: cs) = (lexFrom .between cs).map (Token.typeCast :: ·) := by
  have started : Scan.start? ':' = some .colon := rfl
  have doubled : Scan.extend? ':' .colon = some (.complete .typeCast) := rfl
  have finished : (Scan.complete .typeCast).finish? = some [Token.typeCast] := rfl
  rw [lexFrom_started started, lexFrom, doubled]
  exact lexFrom_finished finished fun _ _ => rfl

section

variable {s t : String} {ts us : List Token}

theorem Lexes.lex (whole : Lexes s ts) : lex s = some ts := by
  have read := whole [] ends_nil
  simpa [Grammar.lex, lexFrom] using read

/-- What stands to the left of a space only has to be read by itself. -/
theorem Lexes.behind (second : Lexes t us) (first : Grammar.lex s = some ts) :
    Lexes (s ++ " " ++ t) (ts ++ us) := by
  intro rest ends
  have shape : (s ++ " " ++ t).toList ++ rest = s.toList ++ ' ' :: (t.toList ++ rest) := by simp
  rw [shape, lexFrom_append_space first, second rest ends]
  cases lexFrom .between rest <;> simp

theorem Lexes.spaced (first : Lexes s ts) (second : Lexes t us) : Lexes (s ++ " " ++ t) (ts ++ us) :=
  second.behind first.lex

theorem Lexes.comma (first : Lexes s ts) (second : Lexes t us) :
    Lexes (s ++ "," ++ t) (ts ++ .comma :: us) := by
  intro rest ends
  have shape : (s ++ "," ++ t).toList ++ rest = s.toList ++ ',' :: (t.toList ++ rest) := by simp
  have comma : Scan.start? ',' = some (.complete .comma) := rfl
  rw [shape, first _ (ends_cons (by simp) _), lexFrom_punctuation comma, second rest ends]
  cases lexFrom .between rest <;> simp

theorem Lexes.parenthesised (inside : Lexes s ts) :
    Lexes ("(" ++ s ++ ")") (.opening :: (ts ++ [.closing])) := by
  intro rest _
  have shape : ("(" ++ s ++ ")").toList ++ rest = '(' :: (s.toList ++ ')' :: rest) := by simp
  have opening : Scan.start? '(' = some (.complete .opening) := rfl
  have closing : Scan.start? ')' = some (.complete .closing) := rfl
  rw [shape, lexFrom_punctuation opening, inside _ (ends_cons (by simp) _), lexFrom_punctuation closing]
  cases lexFrom .between rest <;> simp

theorem Lexes.typeCast (first : Lexes s ts) (second : Lexes t us) :
    Lexes (s ++ "::" ++ t) (ts ++ .typeCast :: us) := by
  intro rest ends
  have shape : (s ++ "::" ++ t).toList ++ rest = s.toList ++ ':' :: ':' :: (t.toList ++ rest) := by simp
  rw [shape, first _ (ends_cons (by simp) _), lexFrom_typeCast, second rest ends]
  cases lexFrom .between rest <;> simp

end

theorem lex_between {x s y sign : String} {ts us vs signs : List Token} (left : lex x = some ts)
    (signed : Lexes sign signs) (inside : Lexes s us) (right : lex y = some vs) :
    lex (x ++ " " ++ sign ++ " " ++ s ++ " " ++ sign ++ " " ++ y) =
      some (ts ++ (signs ++ (us ++ (signs ++ vs)))) := by
  have shape : (x ++ " " ++ sign ++ " " ++ s ++ " " ++ sign ++ " " ++ y).toList =
      x.toList ++ ' ' :: (sign.toList ++ ' ' :: (s.toList ++ ' ' :: (sign.toList ++ ' ' :: y.toList))) := by
    simp
  have space (cs : List Char) : Ends (' ' :: cs) := ends_cons (.inl rfl) cs
  have last : lexFrom .between y.toList = some vs := right
  rw [lex, shape, lexFrom_append_space left, signed _ (space _), lexFrom_space, inside _ (space _),
    lexFrom_space, signed _ (space _), lexFrom_space, last]
  simp

def Parses (ts : List Token) (e : Expr) : Prop :=
  ∃ state, State.run ⟨[], .operand⟩ ts = some state ∧ state.result? = some e

theorem Parses.unique {ts : List Token} {x y : Expr} (first : Parses ts x) (second : Parses ts y) : x = y := by
  obtain ⟨state, ran, result⟩ := first
  obtain ⟨state', ran', result'⟩ := second
  cases ran.symm.trans ran'
  exact Option.some.inj (result.symm.trans result')

/-- Nothing is pending at the start, and at the end all that is pending is applied. -/
theorem ReadsIn.parses {room level : Nat} {ts : List Token} {e : Expr} (reads : ReadsIn room level ts e) :
    Parses ts e := by
  obtain ⟨pending, last, ran, settled⟩ := reads [] trivial
  have whole : settle 0 pending last = ([], e) := settle_of_settled (Nat.zero_le _) settled
  exact ⟨_, ran, by simp only [State.result?, whole]⟩

theorem parse_eq_some_iff {s : String} {ts : List Token} (lexed : lex s = some ts) (e : Expr) :
    parse s = some e ↔ Parses ts e := by
  simp only [parse, lexed, Option.bind_eq_bind, Option.bind_some, Option.bind_eq_some_iff, Parses]

theorem parse_of_reads {s : String} {ts : List Token} {e : Expr} {level : Nat} (read : lex s = some ts)
    (reads : Reads level ts e) : parse s = some e :=
  (parse_eq_some_iff read e).2 reads.parses

theorem chain_of_parse {x : String} {e : Expr} (k : Connective) (parsed : parse x = some e)
    (atom : e.isAtom = true) : ∃ ts, lex x = some ts ∧ Chain k ts e [] := by
  simp only [parse, Option.bind_eq_bind, Option.bind_eq_some_iff] at parsed
  obtain ⟨ts, read, state, ran, result⟩ := parsed
  have reads := reads_of_result ran result atom
  have below : (connection k).level + 1 ≤ notLevel := by cases k <;> decide
  exact ⟨ts, read, .single (reads.mono below)⟩

theorem ofText?_of_dot {s : String} (dot : '.' ∈ s.toList) : Keyword.ofText? s = none := by
  have kept : '.' ∈ (String.ofList (s.toList.map Char.toLower)).toList := by
    rw [String.toList_ofList]
    exact List.mem_map.2 ⟨'.', dot, rfl⟩
  unfold Keyword.ofText?
  split <;> first | rfl | (rename_i same; rw [same] at kept; revert kept; decide)

def chainOf (k : Connective) : List Expr → Expr
  | [] => .truth (k = .and)
  | first :: others => chained k first others

/-- The text is read as a chain of these parts, wherever it ends properly. -/
def ReadsParts (k : Connective) (s : String) (parts : List Expr) : Prop :=
  ∃ ts first others, Lexes s ts ∧ Chain k ts first others ∧ parts = first :: others

theorem readsParts_of_reads (k : Connective) {s : String} {ts : List Token} {e : Expr} {level : Nat}
    (read : Lexes s ts) (reads : Reads level ts e) (above : notLevel ≤ level) : ReadsParts k s [e] := by
  have below : (connection k).level + 1 ≤ notLevel := by cases k <;> decide
  exact ⟨ts, e, [], read, .single (reads.mono (Nat.le_trans below above)), rfl⟩

namespace ReadsParts

variable {k : Connective} {s t : String} {parts others : List Expr}

theorem parse (read : ReadsParts k s parts) : parse s = some (chainOf k parts) := by
  obtain ⟨ts, first, others, lexed, chain, rfl⟩ := read
  exact parse_of_reads lexed.lex chain.reads

theorem connected (left : ReadsParts k s parts) (right : ReadsParts k t others) {sign : String}
    (signed : Lexes sign [connectiveSign k]) :
    ReadsParts k (s ++ " " ++ sign ++ " " ++ t) (parts ++ others) := by
  obtain ⟨ts, first, more, read, chain, rfl⟩ := left
  obtain ⟨us, second, rest, read', chain', rfl⟩ := right
  have lexed := (read.spaced signed).spaced read'
  rw [List.append_assoc, List.singleton_append] at lexed
  exact ⟨_, first, more ++ second :: rest, lexed, chain.append chain', rfl⟩

theorem inside (read : ReadsParts .and s parts) : ReadsParts .or s [chainOf .and parts] := by
  obtain ⟨ts, first, others, lexed, chain, rfl⟩ := read
  exact ⟨ts, chained .and first others, [], lexed, .single chain.reads, rfl⟩

theorem parenthesised (read : ReadsParts k s parts) :
    ∃ ts, Lexes ("(" ++ s ++ ")") ts ∧ Primary ts (chainOf k parts) := by
  obtain ⟨ts, first, others, lexed, chain, rfl⟩ := read
  exact ⟨_, lexed.parenthesised, chain.reads.parenthesised⟩

theorem grouped (read : ReadsParts k s parts) (outer : Connective) :
    ReadsParts outer ("(" ++ s ++ ")") [chainOf k parts] := by
  obtain ⟨ts, lexed, primary⟩ := read.parenthesised
  exact readsParts_of_reads outer lexed (primary.reads notLevel) (Nat.le_refl _)

theorem negated (read : ReadsParts k s parts) (outer : Connective) :
    ReadsParts outer ("NOT" ++ " " ++ ("(" ++ s ++ ")")) [.not (chainOf k parts)] := by
  obtain ⟨ts, lexed, primary⟩ := read.parenthesised
  have not : Lexes "NOT" [.keyword .not] := lexes_keyword .not
  have reads : Reads notLevel (.keyword .not :: ts) _ := (primary.reads isLevel).not
  exact readsParts_of_reads outer (not.spaced lexed) reads (Nat.le_refl _)

theorem intercalated {α : Type} {sign : String} (signed : Lexes sign [connectiveSign k])
    (text : α → String) (parts : α → List Expr) (first : α) (rest : List α)
    (each : ∀ a ∈ first :: rest, ReadsParts k (text a) (parts a)) :
    ReadsParts k (String.intercalate (" " ++ sign ++ " ") ((first :: rest).map text))
      ((first :: rest).flatMap parts) := by
  induction rest generalizing first with
  | nil =>
    rw [List.map_singleton, String.intercalate_singleton, List.flatMap_singleton]
    exact each first (by simp)
  | cons second rest ih =>
    have head := each first (by simp)
    have tail := ih second fun a member => each a (List.mem_cons_of_mem first member)
    rw [List.map_cons, List.map_cons, String.intercalate_cons_cons, List.flatMap_cons]
    have joined := head.connected tail signed
    simp only [← String.append_assoc] at joined ⊢
    exact joined

end ReadsParts

/-- The text is read as a chain, wherever it ends properly, and the chain has that truth. -/
def ReadsAs (k : Connective) (s : String) (truth : (Expr → Truth) → Truth) : Prop :=
  ∃ ts first others, Lexes s ts ∧ Chain k ts first others ∧
    ∀ atom, Truth.joined k ((first :: others).map (·.truthFrom atom)) = truth atom

theorem ReadsParts.readsAs {k : Connective} {s : String} {parts : List Expr} {truth : (Expr → Truth) → Truth}
    (read : ReadsParts k s parts) (same : ∀ atom, Truth.joined k (parts.map (·.truthFrom atom)) = truth atom) :
    ReadsAs k s truth := by
  obtain ⟨ts, first, others, lexed, chain, rfl⟩ := read
  exact ⟨ts, first, others, lexed, chain, same⟩

/-- A whole chain is a part of a chain of another connective only where that binds no tighter. -/
theorem ReadsAs.inside {s : String} {truth : (Expr → Truth) → Truth} (read : ReadsAs .and s truth)
    (k : Connective) : ReadsAs k s truth := by
  cases k with
  | and => exact read
  | or =>
    obtain ⟨ts, first, others, lexed, chain, same⟩ := read
    refine ⟨ts, chained .and first others, [], lexed, .single chain.reads, fun atom => ?_⟩
    rw [List.map_singleton, Truth.joined_singleton, truthFrom_chained, same]

end EntitySql.Grammar
