import Lox.Proofs.Token.Genuine

/-
  Joined sources — scanning one text below another

  A newline ends every span, except for strings and block comments that go on
  over it. In a text that leaves none of these open every span therefore ends at
  a newline as it does at the end of the text, so a text below it is scanned as
  it would be by itself, only further down (`scan_joined`). Other lexical errors
  change nothing about that.
-/

namespace Lox

/-- A lexical error on another line. -/
def LexicalError.mapLine (f : Nat → Nat) (e : LexicalError) : LexicalError :=
  { e with line := f e.line }

/-- Two sources, the second one below the first. -/
def joined (first second : String) : String := first ++ "\n" ++ second

/-- How many lines a source takes up. -/
def lineCount (source : String) : Nat := newlines source.toList + 1

/-- Scanned items that tell of no string and no comment without an end. -/
def LeavesNothingOpen (items : List ScanItem) : Prop :=
  ∀ e ∈ items.filterMap ScanItem.error?,
    e.problem ≠ .unterminatedString ∧ e.problem ≠ .unterminatedComment

/-- A span with more text behind it. -/
def Span.before (s : Span) (w : List Char) : Span := { s with rest := s.rest ++ w }

/-! ## Spans before a newline -/

namespace Scan

variable {c : Char} {cs w : List Char}

/-- A run of characters of a class that ends before the newline, or at it. -/
theorem run_newline (p : Char → Bool) (cs w : List Char)
    (h : cs.dropWhile p ≠ [] ∨ p '\n' = false) :
    (cs ++ '\n' :: w).takeWhile p = cs.takeWhile p ∧
      (cs ++ '\n' :: w).dropWhile p = cs.dropWhile p ++ '\n' :: w := by
  induction cs with
  | nil =>
    have hp : p '\n' = false := h.resolve_left fun hne => hne rfl
    simp [hp]
  | cons c cs ih =>
    cases hc : p c with
    | true =>
      rw [List.dropWhile_cons_of_pos hc] at h
      obtain ⟨htake, hdrop⟩ := ih h
      simp only [List.cons_append, List.takeWhile_cons_of_pos hc, List.dropWhile_cons_of_pos hc,
        htake, hdrop, and_self]
    | false => simp [hc]

theorem splitComment?_newline {text rest : List Char} (h : splitComment? cs = some (text, rest)) :
    splitComment? (cs ++ '\n' :: w) = some (text, rest ++ '\n' :: w) := by
  fun_induction splitComment? cs generalizing text rest with
  | case1 r =>
    cases h
    rfl
  | case2 c cs hne ih =>
    obtain ⟨⟨t, r⟩, ht, he⟩ := Option.map_eq_some_iff.1 h
    cases he
    have hcons : splitComment? (c :: (cs ++ '\n' :: w)) =
        (splitComment? (cs ++ '\n' :: w)).map fun found => (c :: found.1, found.2) := by
      rw [splitComment?]
      intro ds hstar hcs
      cases cs with
      | nil => cases hcs
      | cons d ds' =>
        cases hcs
        exact hne ds' hstar rfl
    rw [List.cons_append, hcons, ih ht]
    rfl
  | case3 => cases h

theorem slash_newline (h : (slash cs).piece ≠ .error .unterminatedComment) :
    slash (cs ++ '\n' :: w) = (slash cs).before ('\n' :: w) := by
  unfold slash at h ⊢
  split at h
  · rename_i cs
    obtain ⟨htake, hdrop⟩ := run_newline (· != '\n') cs w (.inr rfl)
    simp only [List.cons_append, htake, hdrop, Span.before]
  · rename_i cs
    split at h
    · rename_i hsplit
      simp only [List.cons_append, splitComment?_newline hsplit, Span.before]
    · exact absurd rfl h
  · rename_i hline hblock
    cases cs with
    | nil => rfl
    | cons d ds =>
      split
      · rename_i heq
        cases heq
        exact absurd rfl (hline ds)
      · rename_i heq
        cases heq
        exact absurd rfl (hblock ds)
      · rfl

theorem quote_newline (h : (quote cs).piece ≠ .error .unterminatedString) :
    quote (cs ++ '\n' :: w) = (quote cs).before ('\n' :: w) := by
  unfold quote at h ⊢
  dsimp only at h ⊢
  split at h
  · rename_i q rest hd
    obtain ⟨htake, hdrop⟩ := run_newline (· != '"') cs w
      (.inl (by rw [hd]; exact List.cons_ne_nil q rest))
    rw [htake, hdrop, hd]
    rfl
  · exact absurd rfl h

theorem number_newline (c : Char) (cs w : List Char) :
    number c (cs ++ '\n' :: w) = (number c cs).before ('\n' :: w) := by
  obtain ⟨htake, hdrop⟩ := run_newline isDigit cs w (.inr rfl)
  simp only [number, htake, hdrop]
  generalize cs.dropWhile isDigit = rest
  obtain _ | ⟨d, rest⟩ := rest
  · rfl
  · by_cases hd : d = '.'
    · subst hd
      obtain _ | ⟨e, es⟩ := rest
      · rfl
      · obtain ⟨htake', hdrop'⟩ := run_newline isDigit es w (.inr rfl)
        simp only [List.cons_append, htake', hdrop']
        split <;> rfl
    · simp [hd, Span.before]

theorem word_newline (c : Char) (cs w : List Char) :
    word c (cs ++ '\n' :: w) = (word c cs).before ('\n' :: w) := by
  obtain ⟨htake, hdrop⟩ := run_newline isWordPart cs w (.inr rfl)
  rw [word, word, htake, hdrop]
  rfl

theorem operator_newline (c : Char) (kinds : Kind × Kind) (cs w : List Char) :
    operator c kinds (cs ++ '\n' :: w) = (operator c kinds cs).before ('\n' :: w) := by
  obtain _ | ⟨d, ds⟩ := cs
  · rfl
  · by_cases hd : d = '='
    · subst hd
      rfl
    · simp [operator, hd, Span.before]

/-- A newline behind a span changes nothing about it, unless the span is a string or a
comment without an end. -/
theorem span_newline (hstring : (span c cs).piece ≠ .error .unterminatedString)
    (hcomment : (span c cs).piece ≠ .error .unterminatedComment) :
    span c (cs ++ '\n' :: w) = (span c cs).before ('\n' :: w) := by
  unfold span at hstring hcomment ⊢
  split
  · rfl
  · split
    · exact operator_newline ..
    · split
      · exact slash_newline (by simpa [*] using hcomment)
      · split
        · exact quote_newline (by simpa [*] using hstring)
        · split
          · exact number_newline ..
          · split
            · exact word_newline ..
            · rfl

end Scan

/-! ## Scanning on below a text -/

theorem Span.item?_before (s : Span) (w : List Char) (line : Nat) :
    (s.before w).item? line = s.item? line := rfl

/-- The first span of a text that leaves nothing open is none that does. -/
theorem LeavesNothingOpen.piece_ne {s : Span} {line : Nat} {items : List ScanItem}
    (h : LeavesNothingOpen ((s.item? line).toList ++ items)) :
    s.piece ≠ .error .unterminatedString ∧ s.piece ≠ .error .unterminatedComment := by
  have hfirst : ∀ problem, s.piece = .error problem →
      problem ≠ .unterminatedString ∧ problem ≠ .unterminatedComment := by
    intro problem hpiece
    refine h ⟨line, problem⟩ ?_
    rw [Span.item?, hpiece]
    exact List.mem_cons_self
  exact ⟨fun hs => (hfirst _ hs).1 rfl, fun hc => (hfirst _ hc).2 rfl⟩

theorem LeavesNothingOpen.of_append {front items : List ScanItem}
    (h : LeavesNothingOpen (front ++ items)) : LeavesNothingOpen items := by
  intro e he
  refine h e ?_
  rw [List.filterMap_append]
  exact List.mem_append_right _ he

/-- A text that leaves nothing open and the text on the line below it are scanned one
after the other. -/
theorem scanFrom_newline (line : Nat) (cs w : List Char)
    (h : LeavesNothingOpen (scanFrom line cs)) :
    ∃ items, scanFrom line cs = items ++ [.token ⟨.eof, "", line + newlines cs⟩] ∧
      scanFrom line (cs ++ '\n' :: w) = items ++ scanFrom (line + newlines cs + 1) w := by
  induction cs using Scan.spans_induction generalizing line with
  | nil =>
    refine ⟨[], by rw [scanFrom]; rfl, ?_⟩
    rw [List.nil_append, scanFrom_cons]
    rfl
  | span c cs ih =>
    have hlines : newlines (c :: cs) =
        newlines (Scan.span c cs).text + newlines (Scan.span c cs).rest := by
      rw [← Scan.span_text_append_rest c cs, newlines, List.count_append]
      rfl
    rw [scanFrom_cons] at h
    have hspan := Scan.span_newline (w := w) h.piece_ne.1 h.piece_ne.2
    obtain ⟨items, hitems, hjoined⟩ := ih _ h.of_append
    rw [List.cons_append, scanFrom_cons, scanFrom_cons, hspan, Span.item?_before, hlines,
      ← Nat.add_assoc, hitems]
    exact ⟨_, (List.append_assoc ..).symm, (congrArg _ hjoined).trans (List.append_assoc ..).symm⟩

/-- The items of a source that leaves nothing open, without its end marker, are the
first ones of any source that begins with it. -/
theorem scan_newline {first : String} (h : LeavesNothingOpen (scan first)) (second : String) :
    ∃ items, scan first = items ++ [.token ⟨.eof, "", lineCount first⟩] ∧
      scan (joined first second) = items ++ (scan second).map (.mapLine (· + lineCount first)) := by
  rw [scan_eq] at h
  obtain ⟨items, hitems, hjoined⟩ := scanFrom_newline 1 first.toList second.toList h
  refine ⟨items, ((scan_eq first).trans hitems).trans (by rw [Nat.add_comm]; rfl), ?_⟩
  rw [scan_eq, scan_eq, joined, String.toList_append, String.toList_append, List.append_assoc]
  exact hjoined.trans (by rw [Nat.add_assoc, scanFrom_add]; rfl)

/-- Sources below a source without lexical errors: its tokens come first, and those
of the other one follow on lines further down. -/
theorem tokens_joined {first : String} (h : lexicalErrors first = []) :
    ∃ body last, tokens first = body ++ [⟨.eof, "", last⟩] ∧ (∀ t ∈ body, t.isEof = false) ∧
      ∀ second,
        tokens (joined first second) =
          body ++ (tokens second).map (·.mapLine (· + lineCount first)) ∧
        lexicalErrors (joined first second) =
          (lexicalErrors second).map (·.mapLine (· + lineCount first)) := by
  have hopen : LeavesNothingOpen (scan first) := by
    intro e he
    rw [show (scan first).filterMap ScanItem.error? = [] from h] at he
    cases he
  obtain ⟨body, last, hfirst, hgenuine⟩ := tokens_genuine first
  refine ⟨body, last, hfirst, fun t ht => (hgenuine t ht).isEof, fun second => ?_⟩
  obtain ⟨items, hitems, hjoined⟩ := scan_newline hopen second
  have hbody : items.filterMap ScanItem.token? = body := by
    rw [tokens, hitems, List.filterMap_append] at hfirst
    exact (List.append_inj' hfirst rfl).1
  have hnone : items.filterMap ScanItem.error? = [] := by
    rw [lexicalErrors, hitems, List.filterMap_append] at h
    exact (List.append_eq_nil_iff.1 h).1
  rw [tokens, lexicalErrors, hjoined, List.filterMap_append, List.filterMap_append,
    filterMap_token?_mapLine, filterMap_error?_mapLine, hbody, hnone]
  exact ⟨rfl, rfl⟩

theorem lexicalErrors_joined {first : String} (h : lexicalErrors first = []) (second : String) :
    lexicalErrors (joined first second) =
      (lexicalErrors second).map (·.mapLine (· + lineCount first)) := by
  obtain ⟨_, _, _, _, hjoined⟩ := tokens_joined h
  exact (hjoined second).2

/-- Scanning is compositional at line breaks: the items of a source that leaves no string
and no comment open, without its end marker, and then those of the source below it, as
many lines further down as the first one takes up. -/
theorem scan_joined (first second : String)
    (h : ∀ e ∈ lexicalErrors first,
      e.problem ≠ .unterminatedString ∧ e.problem ≠ .unterminatedComment) :
    ∃ items, scan first = items ++ [.token ⟨.eof, "", lineCount first⟩] ∧
      (∀ t, ScanItem.token t ∈ items → t.isEof = false) ∧
      scan (joined first second) = items ++ (scan second).map (.mapLine (· + lineCount first)) := by
  obtain ⟨items, hitems, hjoined⟩ := scan_newline h second
  refine ⟨items, hitems, fun t ht => ?_, hjoined⟩
  obtain ⟨genuine, last, hscan, hgenuine⟩ := scanFrom_genuine 1 first.toList
  rw [scan_eq] at hitems
  obtain ⟨rfl, -⟩ := List.append_inj' (hitems.symm.trans hscan) rfl
  exact (hgenuine t ht).isEof

/-- A source with a character that begins no token, whose last operator would take the
first character of the other source. -/
theorem scan_joined_bang :
    (∀ e ∈ lexicalErrors "@//\na.!",
      e.problem ≠ .unterminatedString ∧ e.problem ≠ .unterminatedComment) ∧
    scan (joined "@//\na.!" "=b #") =
      [.error ⟨1, .unexpectedCharacter '@'⟩, .token ⟨.identifier, "a", 2⟩,
        .token ⟨.dot, ".", 2⟩, .token ⟨.bang, "!", 2⟩, .token ⟨.equal, "=", 3⟩,
        .token ⟨.identifier, "b", 3⟩, .error ⟨3, .unexpectedCharacter '#'⟩,
        .token ⟨.eof, "", 3⟩] := by
  have herrors : lexicalErrors "@//\na.!" = [⟨1, .unexpectedCharacter '@'⟩] := by
    rw [lexicalErrors_eq]
    cbv
  have h : ∀ e ∈ lexicalErrors "@//\na.!",
      e.problem ≠ .unterminatedString ∧ e.problem ≠ .unterminatedComment := by
    rw [herrors]
    decide
  have hfirst : scan "@//\na.!" =
      [.error ⟨1, .unexpectedCharacter '@'⟩, .token ⟨.identifier, "a", 2⟩,
        .token ⟨.dot, ".", 2⟩, .token ⟨.bang, "!", 2⟩] ++ [.token ⟨.eof, "", 2⟩] := by
    rw [scan_eq]
    cbv
  have hsecond : scan "=b #" = [.token ⟨.equal, "=", 1⟩, .token ⟨.identifier, "b", 1⟩,
      .error ⟨1, .unexpectedCharacter '#'⟩, .token ⟨.eof, "", 1⟩] := by
    rw [scan_eq]
    cbv
  have hlines : lineCount "@//\na.!" = 2 := by cbv
  obtain ⟨items, hitems, -, hjoined⟩ := scan_joined "@//\na.!" "=b #" h
  obtain ⟨rfl, -⟩ := List.append_inj' (hitems.symm.trans hfirst) rfl
  rw [hsecond, hlines] at hjoined
  exact ⟨h, hjoined⟩

end Lox
