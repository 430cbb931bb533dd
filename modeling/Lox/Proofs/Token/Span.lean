import Lox.Token.Scan

/-
  Spans — the characters of a source, cut up as they are scanned

  The text is cut into spans. Each span is a blank, a newline, a comment, a
  token or the text of a lexical error, is not empty, and is as long as its
  kind allows. What follows a span is cut in the same way, so the spans make up
  the whole text (`span_text_append_rest`). No position is counted here, and the
  line of a span is read off the text; that a scanner, which keeps both, gives out
  the items of these spans is `Scanner.drain_eq`.
-/

namespace Lox

/-- What a span of the source is. -/
inductive Piece where
  /-- a blank, a newline or a comment -/
  | blank
  | token (kind : Kind)
  | error (problem : LexicalProblem)

/-- A first piece of a text, and what follows it. -/
structure Span where
  piece : Piece
  text : List Char
  rest : List Char

namespace Scan

/-- The token or blank that a character is by itself, whatever follows it. -/
def single? (c : Char) : Option Piece :=
  match punctuator? c with
  | some kind => some (.token kind)
  | none => if isBlank c || c == '\n' then some .blank else none

theorem punctuator?_of_single? {c : Char} {kind : Kind} (h : single? c = some (.token kind)) :
    punctuator? c = some kind := by
  unfold single? at h
  split at h
  · rename_i kind' hpunctuator
    cases h
    exact hpunctuator
  · split at h <;> cases h

/-- A character that is no token by itself is a blank or nothing by itself. -/
theorem mem_blanks_of_single? {c : Char} {piece : Piece} (h : single? c = some piece)
    (hpiece : ∀ kind, piece ≠ .token kind) : piece = .blank ∧ c ∈ [' ', '\r', '\t', '\n'] := by
  unfold single? at h
  split at h
  · rename_i kind hpunctuator
    cases h
    exact absurd rfl (hpiece kind)
  · split at h
    · rename_i hblank
      cases h
      refine ⟨rfl, ?_⟩
      simpa [isBlank, or_assoc] using hblank
    · cases h

/-- The text up to and including the first end of a block comment, and the text
behind it. -/
def splitComment? : List Char → Option (List Char × List Char)
  | '*' :: '/' :: rest => some (['*', '/'], rest)
  | c :: rest => (splitComment? rest).map fun (text, rest) => (c :: text, rest)
  | [] => none

/-- The span of a text that begins with a slash. -/
def slash : List Char → Span
  | '/' :: cs =>
    ⟨.blank, '/' :: '/' :: cs.takeWhile (· != '\n'), cs.dropWhile (· != '\n')⟩
  | '*' :: cs =>
    match splitComment? cs with
    | some (text, rest) => ⟨.blank, '/' :: '*' :: text, rest⟩
    | none => ⟨.error .unterminatedComment, '/' :: '*' :: cs, []⟩
  | cs => ⟨.token .slash, ['/'], cs⟩

/-- The span of a text that begins with a quote. -/
def quote (cs : List Char) : Span :=
  let text := cs.takeWhile (· != '"')
  match cs.dropWhile (· != '"') with
  | _ :: rest => ⟨.token (.string (.ofList text)), '"' :: (text ++ ['"']), rest⟩
  | [] => ⟨.error .unterminatedString, '"' :: text, []⟩

/-- The span of a text that begins with a digit. A point belongs to the number
only if a digit follows it. -/
def number (c : Char) (cs : List Char) : Span :=
  let whole := c :: cs.takeWhile isDigit
  match cs.dropWhile isDigit with
  | '.' :: d :: ds =>
    if isDigit d then
      let fraction := d :: ds.takeWhile isDigit
      ⟨.token (.number (Number.ofDigits whole fraction)), whole ++ '.' :: fraction,
        ds.dropWhile isDigit⟩
    -- the point is a token of its own
    else ⟨.token (.number (Number.ofDigits whole [])), whole, '.' :: d :: ds⟩
  | rest => ⟨.token (.number (Number.ofDigits whole [])), whole, rest⟩

/-- The point and the digits behind it that belong to a number in front of a text. -/
def fractionOf : List Char → List Char
  | '.' :: d :: ds => if isDigit d then '.' :: d :: ds.takeWhile isDigit else []
  | _ => []

/-- A number is its whole digits and its fraction. -/
theorem number_eq (c : Char) (cs : List Char) :
    ∃ rest, cs.dropWhile isDigit = fractionOf (cs.dropWhile isDigit) ++ rest ∧
      number c cs =
        ⟨.token (.number (Number.ofDigits (c :: cs.takeWhile isDigit)
            (fractionOf (cs.dropWhile isDigit)).tail)),
          c :: cs.takeWhile isDigit ++ fractionOf (cs.dropWhile isDigit), rest⟩ := by
  unfold number fractionOf
  dsimp only
  generalize cs.dropWhile isDigit = rest
  split
  · rename_i d ds
    split
    · refine ⟨ds.dropWhile isDigit, ?_, rfl⟩
      simp
    · exact ⟨'.' :: d :: ds, rfl, by simp⟩
  · exact ⟨rest, rfl, by simp⟩

/-- The span of a text that begins with a letter or an underscore. -/
def word (c : Char) (cs : List Char) : Span :=
  let text := c :: cs.takeWhile isWordPart
  ⟨.token (.ofWord (.ofList text)), text, cs.dropWhile isWordPart⟩

/-- The span of a text that begins with an operator character. -/
def operator (c : Char) (kinds : Kind × Kind) : List Char → Span
  | '=' :: cs => ⟨.token kinds.2, [c, '='], cs⟩
  | cs => ⟨.token kinds.1, [c], cs⟩

/-- The first span of the text `c :: cs`. -/
def span (c : Char) (cs : List Char) : Span :=
  match single? c with
  | some piece => ⟨piece, [c], cs⟩
  | none =>
    match operator? c with
    | some kinds => operator c kinds cs
    | none =>
      if c == '/' then slash cs
      else if c == '"' then quote cs
      else if isDigit c then number c cs
      else if isWordStart c then word c cs
      else ⟨.error (.unexpectedCharacter c), [c], cs⟩

/-- The first span of `c :: cs`, by the rule that makes it. -/
theorem span_cases (c : Char) (cs : List Char) :
    (∃ piece, single? c = some piece ∧ span c cs = ⟨piece, [c], cs⟩) ∨
    (∃ kinds, operator? c = some kinds ∧ span c cs = operator c kinds cs) ∨
    (c = '/' ∧ span c cs = slash cs) ∨
    (c = '"' ∧ span c cs = quote cs) ∨
    (isDigit c = true ∧ span c cs = number c cs) ∨
    (isWordStart c = true ∧ span c cs = word c cs) ∨
    ∀ ds, span c ds = ⟨.error (.unexpectedCharacter c), [c], ds⟩ := by
  simp only [span]
  cases hsingle : single? c with
  | some piece => exact .inl ⟨piece, rfl, rfl⟩
  | none =>
    cases hoperator : operator? c with
    | some kinds => exact .inr (.inl ⟨kinds, rfl, rfl⟩)
    | none =>
      dsimp only
      split
      · rename_i hslash
        exact .inr (.inr (.inl ⟨eq_of_beq hslash, rfl⟩))
      · split
        · rename_i hquote
          exact .inr (.inr (.inr (.inl ⟨eq_of_beq hquote, rfl⟩)))
        · split
          · rename_i hdigit
            exact .inr (.inr (.inr (.inr (.inl ⟨hdigit, rfl⟩))))
          · split
            · rename_i hword
              exact .inr (.inr (.inr (.inr (.inr (.inl ⟨hword, rfl⟩)))))
            · exact .inr (.inr (.inr (.inr (.inr (.inr fun _ => rfl)))))

/-! ## Spans make up the text -/

theorem splitComment?_append {cs text rest : List Char}
    (h : splitComment? cs = some (text, rest)) : text ++ rest = cs := by
  fun_induction splitComment? cs generalizing text rest with
  | case1 r =>
    obtain ⟨rfl, rfl⟩ := by simpa using h
    rfl
  | case2 c cs _ ih =>
    obtain ⟨⟨t, r⟩, ht, he⟩ := Option.map_eq_some_iff.1 h
    cases he
    simp [ih ht]
  | case3 => simp at h

/-- The text of a comment ends with the first mark that ends it. -/
theorem splitComment?_first {cs text rest : List Char} (h : splitComment? cs = some (text, rest)) :
    ∃ inner, text = inner ++ ['*', '/'] ∧ ¬['*', '/'] <:+: inner ++ ['*'] := by
  fun_induction splitComment? cs generalizing text rest with
  | case1 r =>
    cases h
    refine ⟨[], rfl, ?_⟩
    decide
  | case2 c cs hne ih =>
    obtain ⟨⟨t, r⟩, ht, he⟩ := Option.map_eq_some_iff.1 h
    cases he
    obtain ⟨inner, rfl, hinner⟩ := ih ht
    refine ⟨c :: inner, rfl, ?_⟩
    rw [List.cons_append, List.infix_cons_iff, not_or]
    refine ⟨fun hprefix => ?_, hinner⟩
    obtain ⟨hc, hprefix⟩ := List.cons_prefix_cons.1 hprefix
    have hcs := splitComment?_append ht
    cases inner with
    | nil => exact absurd hprefix (by decide)
    | cons d inner =>
      obtain ⟨hd, -⟩ := List.cons_prefix_cons.1 hprefix
      exact hne _ hc.symm (by rw [← hcs, ← hd]; rfl)
  | case3 => cases h

theorem slash_append (cs : List Char) : (slash cs).text ++ (slash cs).rest = '/' :: cs := by
  unfold slash
  split
  · simp
  · split
    · rename_i h
      simp [splitComment?_append h]
    · simp
  · simp

theorem quote_append (cs : List Char) : (quote cs).text ++ (quote cs).rest = '"' :: cs := by
  have h := cs.takeWhile_append_dropWhile (p := (· != '"'))
  unfold quote
  dsimp only
  split
  · rename_i q rest hd
    have hq : q = '"' := by
      have := List.head?_dropWhile_not (· != '"') cs
      rw [hd] at this
      simpa using this
    rw [hd] at h
    simpa [hq] using h
  · rename_i hd
    rw [hd] at h
    simp_all

theorem number_append (c : Char) (cs : List Char) :
    (number c cs).text ++ (number c cs).rest = c :: cs := by
  have h := cs.takeWhile_append_dropWhile (p := isDigit)
  unfold number
  dsimp only
  split
  · rename_i d ds hd
    rw [hd] at h
    split
    · have h' := ds.takeWhile_append_dropWhile (p := isDigit)
      simp [h', h]
    · simpa using h
  · simp [h]

theorem word_append (c : Char) (cs : List Char) :
    (word c cs).text ++ (word c cs).rest = c :: cs := by
  simp [word, List.takeWhile_append_dropWhile]

theorem operator_append (c : Char) (kinds : Kind × Kind) (cs : List Char) :
    (operator c kinds cs).text ++ (operator c kinds cs).rest = c :: cs := by
  unfold operator
  split <;> simp

/-- A span and what follows it are the text. -/
theorem span_text_append_rest (c : Char) (cs : List Char) :
    (span c cs).text ++ (span c cs).rest = c :: cs := by
  obtain ⟨piece, -, hspan⟩ | ⟨kinds, -, hspan⟩ | ⟨rfl, hspan⟩ | ⟨rfl, hspan⟩ | ⟨-, hspan⟩ |
    ⟨-, hspan⟩ | hspan := span_cases c cs
  · rw [hspan, List.singleton_append]
  · rw [hspan, operator_append]
  · rw [hspan, slash_append]
  · rw [hspan, quote_append]
  · rw [hspan, number_append]
  · rw [hspan, word_append]
  · rw [hspan, List.singleton_append]

theorem span_text_ne_nil (c : Char) (cs : List Char) : (span c cs).text ≠ [] := by
  simp only [span, slash, quote, number, word, operator]
  repeat' split
  all_goals simp

/-- What follows a span is shorter than the text. -/
theorem length_span_rest_lt (c : Char) (cs : List Char) :
    (span c cs).rest.length < (c :: cs).length := by
  have h := congrArg List.length (span_text_append_rest c cs)
  have hn := List.length_pos_iff.2 (span_text_ne_nil c cs)
  rw [List.length_append] at h
  omega

/-- Induction on the spans of a text. -/
theorem spans_induction {motive : List Char → Prop} (nil : motive [])
    (span : ∀ c cs, motive (span c cs).rest → motive (c :: cs)) (cs : List Char) : motive cs := by
  induction hn : cs.length using Nat.strongRecOn generalizing cs with
  | ind n ih =>
    cases cs with
    | nil => exact nil
    | cons c cs => exact span c cs (ih _ (hn ▸ length_span_rest_lt c cs) _ rfl)

end Scan

/-- How many newlines a text has. -/
def newlines (cs : List Char) : Nat := cs.count '\n'

theorem newlines_append (cs ds : List Char) : newlines (cs ++ ds) = newlines cs + newlines ds :=
  List.count_append

/-- The item that a span is, if any, on the line on which the span ends. -/
def Span.item? (s : Span) (line : Nat) : Option ScanItem :=
  match s.piece with
  | .blank => none
  | .token kind => some (.token ⟨kind, .ofList s.text, line⟩)
  | .error problem => some (.error ⟨line, problem⟩)

/-- The items of a text that begins on the given line, ending with the end
marker. -/
def scanFrom (line : Nat) : List Char → List ScanItem
  | [] => [.token ⟨.eof, "", line⟩]
  | c :: cs =>
    let s := Scan.span c cs
    let line := line + newlines s.text
    let items := scanFrom line s.rest
    match s.item? line with
    | some item => item :: items
    | none => items
termination_by cs => cs.length
decreasing_by exact Scan.length_span_rest_lt c cs

/-- Scanning goes on behind the first span. -/
theorem scanFrom_cons (line : Nat) (c : Char) (cs : List Char) :
    scanFrom line (c :: cs) =
      ((Scan.span c cs).item? (line + newlines (Scan.span c cs).text)).toList ++
        scanFrom (line + newlines (Scan.span c cs).text) (Scan.span c cs).rest := by
  rw [scanFrom]
  cases (Scan.span c cs).item? (line + newlines (Scan.span c cs).text) <;> rfl

end Lox
