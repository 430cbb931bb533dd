import Lox.Proofs.Token.Layout

/-
  Munch — the lexemes of a source

  The lexemes are the fixed spellings, the words, the numerals and the quoted
  texts. Separated lexemes are scanned as what they are, whatever the separators
  hold (`Spaced.scanFrom_eq`). In every source, separated or not, a token takes
  in all that could be a part of it (`scan_munches`).
-/

namespace Lox

/-! ## Lexemes -/

/-- `Lexeme text kind`: the text is a token of this kind by itself. -/
inductive Lexeme : List Char → Kind → Prop
  | fixed {kind : Kind} {text : String} :
      kind.spelling? = some text → Lexeme text.toList kind
  | word {c : Char} {cs : List Char} :
      Scan.isWordStart c = true → (∀ d ∈ cs, Scan.isWordPart d = true) →
      Lexeme (c :: cs) (.ofWord (.ofList (c :: cs)))
  | number {c : Char} {whole fraction : List Char} :
      (∀ d ∈ c :: whole ++ fraction, Scan.isDigit d = true) →
      Lexeme (c :: (whole ++ if fraction = [] then [] else '.' :: fraction))
        (.number (Number.ofDigits (c :: whole) fraction))
  | quoted {text : List Char} :
      '"' ∉ text → Lexeme (inQuotes text) (.string (.ofList text))

/-- `Spaced line text tokens`: the text, which begins on the given line, is these tokens
with separators before, between and behind them. Behind each token is a blank, a newline
or the end of the text. -/
inductive Spaced : Nat → List Char → List Token → Prop
  | done {line : Nat} {gap : List Char} : Skipped [] gap → Spaced line gap []
  | next {line : Nat} {gap text rest : List Char} {kind : Kind} {ts : List Token} :
      Skipped (text ++ rest) gap → Lexeme text kind →
      (∀ c ∈ rest.head?, c ∈ [' ', '\r', '\t', '\n']) →
      Spaced (line + newlines (gap ++ text)) rest ts →
      Spaced line (gap ++ (text ++ rest))
        (⟨kind, .ofList text, line + newlines (gap ++ text)⟩ :: ts)

/-- A kind with one spelling is read from it. -/
theorem Scan.reads_spelling {kind : Kind} {text : String} (h : kind.spelling? = some text) :
    ∃ c cs, text.toList = c :: cs ∧ Reads c cs kind := by
  have hbang := reads_operator (rfl : operator? '!' = some (.bang, .bangEqual))
  have hequal := reads_operator (rfl : operator? '=' = some (.equal, .equalEqual))
  have hless := reads_operator (rfl : operator? '<' = some (.less, .lessEqual))
  have hgreater := reads_operator (rfl : operator? '>' = some (.greater, .greaterEqual))
  cases kind
  case slash => cases h; exact ⟨_, _, rfl, reads_slash⟩
  case bang => cases h; exact ⟨_, _, rfl, hbang.1⟩
  case bangEqual => cases h; exact ⟨_, _, rfl, hbang.2⟩
  case equal => cases h; exact ⟨_, _, rfl, hequal.1⟩
  case equalEqual => cases h; exact ⟨_, _, rfl, hequal.2⟩
  case less => cases h; exact ⟨_, _, rfl, hless.1⟩
  case lessEqual => cases h; exact ⟨_, _, rfl, hless.2⟩
  case greater => cases h; exact ⟨_, _, rfl, hgreater.1⟩
  case greaterEqual => cases h; exact ⟨_, _, rfl, hgreater.2⟩
  -- what is left has no spelling, is a single character or is a keyword
  all_goals first
    | cases h; done
    | cases h; exact ⟨_, [], rfl, reads_single rfl⟩
    | cases h; exact ⟨_, _, rfl, reads_word rfl (List.all_eq_true.1 rfl)⟩

/-- A lexeme is read as its kind before everything that is apart from it. -/
theorem Lexeme.reads {text : List Char} {kind : Kind} (h : Lexeme text kind) :
    ∃ c cs, text = c :: cs ∧ Scan.Reads c cs kind := by
  cases h with
  | fixed hspelling => exact Scan.reads_spelling hspelling
  | word hstart hpart => exact ⟨_, _, rfl, Scan.reads_word hstart hpart⟩
  | number hdigits => exact ⟨_, _, rfl, Scan.reads_number hdigits⟩
  | @quoted text hquote =>
    refine ⟨_, _, rfl, Scan.reads_quote fun c hc => ?_⟩
    simpa using ne_of_mem_of_not_mem hc hquote

theorem apart_of_blank {rest : List Char}
    (h : ∀ c ∈ rest.head?, c ∈ [' ', '\r', '\t', '\n']) : Apart rest := by
  intro c hc
  have hblank := h c hc
  simp only [List.mem_cons, List.not_mem_nil, or_false] at hblank
  obtain rfl | rfl | rfl | rfl := hblank <;> decide

/-! ## Separated lexemes -/

theorem Scan.single?_blank {c : Char} (h : c ∈ [' ', '\r', '\t', '\n']) :
    single? c = some .blank := by
  simp only [List.mem_cons, List.not_mem_nil, or_false] at h
  obtain rfl | rfl | rfl | rfl := h <;> rfl

/-- A comment ends with the first mark that ends it. -/
theorem Scan.splitComment?_of_first {text : List Char} (rest : List Char)
    (h : ¬['*', '/'] <:+: text ++ ['*']) :
    splitComment? (text ++ '*' :: '/' :: rest) = some (text ++ ['*', '/'], rest) := by
  induction text with
  | nil => rfl
  | cons c text ih =>
    rw [List.cons_append, List.infix_cons_iff, not_or] at h
    obtain ⟨hfirst, hlater⟩ := h
    rw [List.cons_append, splitComment?, ih hlater]
    · rfl
    · -- `c` and what is behind it are no end of the comment
      rintro tail rfl htail
      refine hfirst (List.cons_prefix_cons.2 ⟨rfl, ?_⟩)
      cases text with
      | nil => exact absurd (List.cons.inj htail).1 (by decide)
      | cons d text =>
        obtain ⟨rfl, -⟩ := List.cons.inj htail
        exact ⟨_, rfl⟩

theorem scanFrom_of_blank {line : Nat} {c : Char} {cs text rest : List Char}
    (h : Scan.span c cs = ⟨.blank, text, rest⟩) :
    scanFrom line (c :: cs) = scanFrom (line + newlines text) rest := by
  rw [scanFrom_cons, h]
  rfl

theorem scanFrom_of_token {line : Nat} {c : Char} {cs text rest : List Char} {kind : Kind}
    (h : Scan.span c cs = ⟨.token kind, text, rest⟩) :
    scanFrom line (c :: cs) = .token ⟨kind, .ofList text, line + newlines text⟩ ::
      scanFrom (line + newlines text) rest := by
  rw [scanFrom_cons, h]
  rfl

/-- Separators are skipped. -/
theorem Skipped.scanFrom_eq {after gap : List Char} (h : Skipped after gap) (line : Nat) :
    scanFrom line (gap ++ after) = scanFrom (line + newlines gap) after := by
  induction h generalizing line with
  | nil => rfl
  | @blank c rest hc _ ih =>
    have hspan : Scan.span c (rest ++ after) = ⟨.blank, [c], rest ++ after⟩ := by
      rw [Scan.span, Scan.single?_blank hc]
    rw [List.cons_append, scanFrom_of_blank hspan, ih, Nat.add_assoc, ← newlines_append]
    rfl
  | @lineComment text rest htext hend _ ih =>
    have hspan : Scan.span '/' ('/' :: (text ++ rest) ++ after) =
        ⟨.blank, '/' :: '/' :: text, rest ++ after⟩ := by
      obtain ⟨htake, hdrop⟩ := @Scan.takeWhile_run (· != '\n') text (rest ++ after)
        (fun c hc => by simpa using ne_of_mem_of_not_mem hc htext)
        (fun c hc => by simpa using hend c hc)
      show Scan.slash ('/' :: (text ++ rest) ++ after) = _
      rw [List.cons_append, List.append_assoc, Scan.slash, htake, hdrop]
    rw [List.cons_append, scanFrom_of_blank hspan, ih, Nat.add_assoc, ← newlines_append]
    rfl
  | @blockComment text rest htext _ ih =>
    have hspan : Scan.span '/' ('*' :: (text ++ '*' :: '/' :: rest) ++ after) =
        ⟨.blank, '/' :: '*' :: (text ++ ['*', '/']), rest ++ after⟩ := by
      show Scan.slash ('*' :: (text ++ '*' :: '/' :: rest) ++ after) = _
      rw [List.cons_append, List.append_assoc, List.cons_append, List.cons_append, Scan.slash,
        Scan.splitComment?_of_first _ htext]
    rw [List.cons_append, scanFrom_of_blank hspan, ih, Nat.add_assoc, ← newlines_append]
    simp

/-- Separated lexemes are the tokens of their text. -/
theorem Spaced.scanFrom_eq {line : Nat} {text : List Char} {ts : List Token}
    (h : Spaced line text ts) :
    scanFrom line text = ts.map .token ++ [.token ⟨.eof, "", line + newlines text⟩] := by
  induction h with
  | @done line gap hgap =>
    have hscan := hgap.scanFrom_eq line
    rw [List.append_nil] at hscan
    rw [hscan, scanFrom]
    rfl
  | @next line gap text rest kind ts hgap hlexeme hblank _ ih =>
    obtain ⟨c, cs, rfl, hreads⟩ := hlexeme.reads
    have hspan := hreads rest (apart_of_blank hblank)
    rw [hgap.scanFrom_eq, List.cons_append, scanFrom_of_token hspan, Nat.add_assoc,
      ← newlines_append, ih, Nat.add_assoc, ← newlines_append]
    simp

/-! ## Where tokens end -/

/-- What is behind a token could not have been a part of it. -/
structure Token.EndsBefore (t : Token) (rest : List Char) : Prop where
  word : t.kind = .identifier ∨ t.kind ∈ Kind.keywords.map Prod.snd →
    ∀ c ∈ rest.head?, Scan.isWordPart c = false
  number : ∀ value, t.kind = .number value → ∀ c ∈ rest.head?, Scan.isDigit c = false
  point : ∀ value, t.kind = .number value → '.' ∉ t.lexeme.toList →
    ∀ d, ['.', d] <+: rest → Scan.isDigit d = false
  operator : t.kind ∈ [.bang, .equal, .less, .greater] → rest.head? ≠ some '='

theorem Kind.ofWord_cases (word : String) :
    Kind.ofWord word = .identifier ∨ Kind.ofWord word ∈ Kind.keywords.map Prod.snd := by
  rw [Kind.ofWord]
  cases h : Kind.keywords.lookup word with
  | none => exact .inl rfl
  | some kind =>
    obtain ⟨before, after, hkeywords, -⟩ := List.lookup_eq_some_iff.1 h
    refine .inr (List.mem_map.2 ⟨(word, kind), ?_, rfl⟩)
    rw [hkeywords]
    simp

namespace Scan

variable {line : Nat} {kind : Kind} {text rest : List Char}

/-- Nothing can be added to the other kinds. -/
theorem endsBefore_of_closed (hword : kind ∉ Kind.identifier :: Kind.keywords.map Prod.snd)
    (hnumber : ∀ value, kind ≠ .number value)
    (hoperator : kind ∉ [Kind.bang, .equal, .less, .greater]) :
    Token.EndsBefore ⟨kind, .ofList text, line⟩ rest where
  word h := absurd (List.mem_cons.2 h) hword
  number value h := absurd h (hnumber value)
  point value h := absurd h (hnumber value)
  operator h := absurd h hoperator

theorem endsBefore_single {c : Char} (h : single? c = some (.token kind)) :
    Token.EndsBefore ⟨kind, .ofList text, line⟩ rest := by
  have hpunctuator := punctuator?_of_single? h
  unfold punctuator? at hpunctuator
  split at hpunctuator
  all_goals cases hpunctuator
  all_goals exact endsBefore_of_closed (by decide) nofun (by decide)

theorem endsBefore_operator {c : Char} {cs : List Char} {kinds : Kind × Kind}
    (hkinds : operator? c = some kinds) (h : (operator c kinds cs).piece = .token kind) :
    Token.EndsBefore ⟨kind, .ofList (operator c kinds cs).text, line⟩
      (operator c kinds cs).rest := by
  unfold operator at h ⊢
  split at h
  · cases h
    unfold operator? at hkinds
    split at hkinds
    all_goals cases hkinds
    all_goals exact endsBefore_of_closed (by decide) nofun (by decide)
  · rename_i hne
    cases h
    have hnot : kinds.1 ∉ Kind.identifier :: Kind.keywords.map Prod.snd ∧
        ∀ value, kinds.1 ≠ .number value := by
      unfold operator? at hkinds
      split at hkinds
      all_goals cases hkinds
      all_goals exact ⟨by decide, nofun⟩
    refine ⟨fun h => absurd (List.mem_cons.2 h) hnot.1, fun value h => absurd h (hnot.2 value),
      fun value h => absurd h (hnot.2 value), fun _ hhead => ?_⟩
    obtain ⟨ds, rfl⟩ := List.head?_eq_some_iff.1 hhead
    exact hne _ rfl

theorem head_dropWhile {p : Char → Bool} {cs : List Char} :
    ∀ c ∈ (cs.dropWhile p).head?, p c = false := by
  intro c hc
  have hstop := List.head?_dropWhile_not p cs
  rw [Option.mem_def] at hc
  rw [hc] at hstop
  simpa using hstop

theorem endsBefore_word {c : Char} {cs : List Char} (h : (word c cs).piece = .token kind) :
    Token.EndsBefore ⟨kind, .ofList (word c cs).text, line⟩ (word c cs).rest := by
  cases h
  have hcases := Kind.ofWord_cases (.ofList (c :: cs.takeWhile isWordPart))
  have hkinds : ∀ kind ∈ Kind.identifier :: Kind.keywords.map Prod.snd,
      (∀ value, kind ≠ .number value) ∧ kind ∉ [Kind.bang, .equal, .less, .greater] := by
    simp [Kind.keywords]
  obtain ⟨hnumber, hoperator⟩ := hkinds _ (List.mem_cons.2 hcases)
  exact ⟨fun _ => head_dropWhile, fun value h => absurd h (hnumber value),
    fun value h => absurd h (hnumber value), fun h => absurd h hoperator⟩

theorem endsBefore_number {c : Char} {cs : List Char} (h : (number c cs).piece = .token kind) :
    Token.EndsBefore ⟨kind, .ofList (number c cs).text, line⟩ (number c cs).rest := by
  obtain ⟨value, rfl⟩ : ∃ value, kind = .number value := by
    unfold number at h
    dsimp only at h
    split at h
    · split at h <;> cases h <;> exact ⟨_, rfl⟩
    · cases h; exact ⟨_, rfl⟩
  have hwhole := @head_dropWhile isDigit cs
  refine ⟨?word, fun _ _ => ?number, fun _ _ hplain d hd => ?point, ?operator⟩
  case word => simp [Kind.keywords]
  case operator => simp
  case number =>
    unfold number
    dsimp only
    split
    · rename_i hdrop
      rw [hdrop] at hwhole
      split
      · exact head_dropWhile
      · exact hwhole
    · exact hwhole
  case point =>
    rw [String.toList_ofList] at hplain
    unfold number at hplain hd
    dsimp only at hplain hd
    split at hd
    · rename_i hdrop
      split at hd
      · -- a number with a fraction has a point
        rename_i hdigit
        rw [hdrop] at hplain
        simp [hdigit] at hplain
      · rename_i hdigit
        obtain ⟨-, hd⟩ := List.cons_prefix_cons.1 hd
        obtain ⟨rfl, -⟩ := List.cons_prefix_cons.1 hd
        simpa using hdigit
    · rename_i hne
      obtain ⟨tail, htail⟩ := hd
      exact absurd htail.symm (hne _ _)

/-- A token takes in all that could be a part of it. -/
theorem endsBefore_span {c : Char} {cs : List Char} (h : (span c cs).piece = .token kind) :
    Token.EndsBefore ⟨kind, .ofList (span c cs).text, line⟩ (span c cs).rest := by
  obtain ⟨piece, hsingle, hspan⟩ | ⟨kinds, hoperator, hspan⟩ | ⟨-, hspan⟩ | ⟨-, hspan⟩ |
    ⟨-, hspan⟩ | ⟨-, hspan⟩ | hspan := span_cases c cs
  all_goals rw [hspan] at h ⊢
  · obtain rfl : piece = .token kind := h
    exact endsBefore_single hsingle
  · exact endsBefore_operator hoperator h
  · obtain rfl : kind = .slash := by
      unfold slash at h
      split at h
      · cases h
      · split at h <;> cases h
      · cases h; rfl
    exact endsBefore_of_closed (by decide) nofun (by decide)
  · obtain ⟨text, rfl⟩ : ∃ text, kind = .string text := by
      unfold quote at h
      dsimp only at h
      split at h <;> cases h
      exact ⟨_, rfl⟩
    exact endsBefore_of_closed (by simp [Kind.keywords]) nofun (by simp)
  · exact endsBefore_number h
  · exact endsBefore_word h
  · cases h

end Scan

/-! ## Tiles -/

/-- A piece of a source, and the item that it is. -/
structure Tile where
  text : List Char
  item : Option ScanItem

/-- A tile is right before the rest of its source: it is skipped, or a token that ends
there, or an error. -/
def Tile.Right (tile : Tile) (rest : List Char) : Prop :=
  match tile.item with
  | none => Skipped rest tile.text
  | some (.token t) => t.lexeme.toList = tile.text ∧ t.EndsBefore rest
  | some (.error _) => True

theorem Scan.right_span (line : Nat) (c : Char) (cs : List Char) :
    Tile.Right ⟨(span c cs).text, (span c cs).item? line⟩ (span c cs).rest := by
  rw [Span.item?]
  cases hpiece : (span c cs).piece with
  | blank =>
    have hskipped := skipped_span hpiece (List.nil_append _).symm .nil
    rwa [List.append_nil] at hskipped
  | token kind => exact ⟨String.toList_ofList, endsBefore_span hpiece⟩
  | error problem => exact trivial

/-- A text is tiles that are right, and its items are theirs. -/
theorem exists_tiles (line : Nat) (cs : List Char) :
    ∃ tiles : List Tile, cs = tiles.flatMap Tile.text ∧
      scanFrom line cs =
        tiles.filterMap Tile.item ++ [.token ⟨.eof, "", line + newlines cs⟩] ∧
      ∀ before tile after, tiles = before ++ tile :: after →
        tile.Right (after.flatMap Tile.text) := by
  induction cs using Scan.spans_induction generalizing line with
  | nil =>
    refine ⟨[], rfl, by rw [scanFrom]; rfl, fun before tile after h => ?_⟩
    simp at h
  | span c cs ih =>
    obtain ⟨tiles, htext, hscan, hright⟩ := ih (line + newlines (Scan.span c cs).text)
    rw [Nat.add_assoc, ← newlines_append, Scan.span_text_append_rest] at hscan
    refine ⟨⟨(Scan.span c cs).text,
      (Scan.span c cs).item? (line + newlines (Scan.span c cs).text)⟩ :: tiles, ?_, ?_, ?_⟩
    · rw [List.flatMap_cons, ← htext, Scan.span_text_append_rest]
    · rw [scanFrom_cons, hscan, List.filterMap_cons]
      cases (Scan.span c cs).item? (line + newlines (Scan.span c cs).text) <;> rfl
    · intro before tile after h
      cases before with
      | nil =>
        -- the texts of the tiles behind the first span are what follows it
        obtain ⟨rfl, rfl⟩ := List.cons.inj h
        rw [← htext]
        exact Scan.right_span _ c cs
      | cons first before => exact hright before tile after (List.cons.inj h).2

/-- Separated lexemes are scanned as the tokens that they are, with the end marker behind
them. Every source is tiles, one behind another, and what is behind a token could not have
been a part of it. -/
theorem scan_munches (source : String) :
    (∀ ts, Spaced 1 source.toList ts →
      scan source = ts.map .token ++ [.token ⟨.eof, "", 1 + newlines source.toList⟩]) ∧
    ∃ tiles : List Tile, source.toList = tiles.flatMap Tile.text ∧
      scan source =
        tiles.filterMap Tile.item ++ [.token ⟨.eof, "", 1 + newlines source.toList⟩] ∧
      ∀ before tile after, tiles = before ++ tile :: after →
        tile.Right (after.flatMap Tile.text) := by
  rw [scan_eq]
  exact ⟨fun _ h => h.scanFrom_eq, exists_tiles 1 source.toList⟩

/-- A comment with a quote in it, a keyword in front of an identifier, and a line comment
at the end of the source. -/
theorem scan_munches_spaced :
    Spaced 1 "/*\"\n*/var vary <= \"//\" //".toList
      [⟨.varWord, "var", 2⟩, ⟨.identifier, "vary", 2⟩, ⟨.lessEqual, "<=", 2⟩,
        ⟨.string "//", "\"//\"", 2⟩] ∧
    scan "/*\"\n*/var vary <= \"//\" //" =
      [.token ⟨.varWord, "var", 2⟩, .token ⟨.identifier, "vary", 2⟩,
        .token ⟨.lessEqual, "<=", 2⟩, .token ⟨.string "//", "\"//\"", 2⟩,
        .token ⟨.eof, "", 2⟩] := by
  have hspaced : Spaced 1 "/*\"\n*/var vary <= \"//\" //".toList
      [⟨.varWord, "var", 2⟩, ⟨.identifier, "vary", 2⟩, ⟨.lessEqual, "<=", 2⟩,
        ⟨.string "//", "\"//\"", 2⟩] := by
    have hblank : ∀ c ∈ some ' ', c ∈ [' ', '\r', '\t', '\n'] := by simp
    have hcomment : Skipped [] " //".toList := .blank (by decide)
      (@Skipped.lineComment [] [] [] nofun nofun .nil)
    have hquoted : Spaced 2 " \"//\" //".toList [⟨.string "//", "\"//\"", 2⟩] :=
      @Spaced.next 2 [' '] (inQuotes ['/', '/']) " //".toList _ _ (.blank (by decide) .nil)
        (.quoted (by decide)) hblank (.done hcomment)
    have hless : Spaced 2 " <= \"//\" //".toList
        [⟨.lessEqual, "<=", 2⟩, ⟨.string "//", "\"//\"", 2⟩] :=
      @Spaced.next 2 [' '] ['<', '='] _ _ _ (.blank (by decide) .nil)
        (@Lexeme.fixed .lessEqual _ rfl) hblank hquoted
    have hvary : Spaced 2 " vary <= \"//\" //".toList
        [⟨.identifier, "vary", 2⟩, ⟨.lessEqual, "<=", 2⟩, ⟨.string "//", "\"//\"", 2⟩] :=
      @Spaced.next 2 [' '] ['v', 'a', 'r', 'y'] _ _ _ (.blank (by decide) .nil)
        (.word rfl (List.all_eq_true.1 rfl)) hblank hless
    exact @Spaced.next 1 ['/', '*', '"', '\n', '*', '/'] ['v', 'a', 'r'] _ _ _
      (@Skipped.blockComment _ ['"', '\n'] [] (by decide) .nil)
      (.word rfl (List.all_eq_true.1 rfl)) hblank hvary
  exact ⟨hspaced, (scan_munches _).1 _ hspaced⟩

end Lox
