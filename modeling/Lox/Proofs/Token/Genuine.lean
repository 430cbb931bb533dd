import Lox.Proofs.Number.ReadBack
import Lox.Proofs.Token.Lines

/-
  Genuine tokens — tokens that a source can have

  A token that comes out of scanning is scanned again from its own characters,
  wherever these are followed by a blank, a closing parenthesis or nothing
  (`Genuine.scans`). Its kind settles its characters, except for names and for
  the spelling of numbers.
-/

namespace Lox

/-- The characters of a kind that has only one spelling. -/
def Kind.spelling? : Kind → Option String
  | leftParen => some "("
  | rightParen => some ")"
  | leftBrace => some "\x7b"
  | rightBrace => some "\x7d"
  | comma => some ","
  | dot => some "."
  | minus => some "-"
  | plus => some "+"
  | semicolon => some ";"
  | slash => some "/"
  | star => some "*"
  | question => some "?"
  | colon => some ":"
  | bang => some "!"
  | bangEqual => some "!="
  | equal => some "="
  | equalEqual => some "=="
  | greater => some ">"
  | greaterEqual => some ">="
  | less => some "<"
  | lessEqual => some "<="
  | andWord => some "and"
  | classWord => some "class"
  | elseWord => some "else"
  | falseWord => some "false"
  | funWord => some "fun"
  | forWord => some "for"
  | ifWord => some "if"
  | nilWord => some "nil"
  | orWord => some "or"
  | printWord => some "print"
  | returnWord => some "return"
  | superWord => some "super"
  | thisWord => some "this"
  | trueWord => some "true"
  | varWord => some "var"
  | whileWord => some "while"
  | identifier | string _ | number _ | eof => none

/-- What may follow a token without becoming a part of it. -/
def Stops (rest : List Char) : Prop := ∀ c ∈ rest.head?, c = ' ' ∨ c = ')'

/-- What no token goes on with, whatever it is. -/
def Apart (rest : List Char) : Prop :=
  ∀ c ∈ rest.head?, Scan.isWordPart c = false ∧ c ∉ ['=', '/', '*', '.']

theorem Stops.apart {rest : List Char} (h : Stops rest) : Apart rest := by
  intro c hc
  obtain rfl | rfl := h c hc <;> decide

theorem Apart.not_isDigit {rest : List Char} (h : Apart rest) :
    ∀ c ∈ rest.head?, Scan.isDigit c = false := fun c hc =>
  (Bool.or_eq_false_iff.1 (h c hc).1).2

theorem Apart.ne_of_mem {rest ds : List Char} {c : Char} (h : Apart rest)
    (hc : c ∈ ['=', '/', '*', '.']) : rest ≠ c :: ds := by
  rintro rfl
  exact (h c rfl).2 hc

/-- The characters of a text between quotes. -/
def inQuotes (text : List Char) : List Char := '"' :: (text ++ ['"'])

/-- A token that is scanned from its characters. -/
structure Token.Genuine (t : Token) : Prop where
  scans : ∀ rest, Stops rest →
    plainScan (t.lexeme.toList ++ rest) = .token t.unlined :: plainScan rest
  spelled : ∀ text, t.kind.spelling? = some text → t.lexeme = text
  quoted : ∀ text, t.kind = .string text →
    t.lexeme = .ofList (inQuotes text.toList) ∧ ∀ c ∈ text.toList, (c != '"') = true
  literal : ∀ value, t.kind = .number value → ∃ whole fraction, value = Number.ofDigits whole fraction
  isEof : t.isEof = false

namespace Scan

/-- A run of characters of a class ends before a character outside of it. -/
theorem takeWhile_run {p : Char → Bool} {cs rest : List Char} (hcs : ∀ c ∈ cs, p c = true)
    (h : ∀ c ∈ rest.head?, p c = false) :
    (cs ++ rest).takeWhile p = cs ∧ (cs ++ rest).dropWhile p = rest := by
  rw [List.takeWhile_append_of_pos hcs, List.dropWhile_append_of_pos hcs]
  cases rest with
  | nil => simp
  | cons c rest => simp [h c rfl]

/-! ## Spans that are scanned again -/

/-- A span that is scanned in the same way before everything that is apart from it. -/
def Reads (c : Char) (cs : List Char) (kind : Kind) : Prop :=
  ∀ rest, Apart rest → span c (cs ++ rest) = ⟨.token kind, c :: cs, rest⟩

/-- A span that is scanned in the same way before everything that stops it. -/
def Again (c : Char) (cs : List Char) (kind : Kind) : Prop :=
  ∀ rest, Stops rest → span c (cs ++ rest) = ⟨.token kind, c :: cs, rest⟩

theorem Reads.again {c : Char} {cs : List Char} {kind : Kind} (h : Reads c cs kind) :
    Again c cs kind := fun rest hrest => h rest hrest.apart

theorem reads_single {c : Char} {kind : Kind} (h : single? c = some (.token kind)) :
    Reads c [] kind := by
  intro rest _
  rw [span, h]
  rfl

theorem reads_operator {c : Char} {kinds : Kind × Kind} (h : operator? c = some kinds) :
    Reads c [] kinds.1 ∧ Reads c ['='] kinds.2 := by
  have hsingle : single? c = none := by
    unfold operator? at h
    split at h <;> first | rfl | cases h
  refine ⟨fun rest hrest => ?_, fun rest _ => ?_⟩
  · simp only [span, hsingle, h, List.nil_append]
    unfold operator
    split
    · exact absurd rfl (hrest.ne_of_mem (by decide))
    · rfl
  · simp only [span, hsingle, h]
    rfl

theorem again_operator {c : Char} {kinds : Kind × Kind} (h : operator? c = some kinds) :
    Again c [] kinds.1 ∧ Again c ['='] kinds.2 := (reads_operator h).imp Reads.again Reads.again

theorem reads_slash : Reads '/' [] .slash := by
  intro rest hrest
  show slash rest = _
  unfold slash
  split
  · exact absurd rfl (hrest.ne_of_mem (by decide))
  · exact absurd rfl (hrest.ne_of_mem (by decide))
  · rfl

theorem reads_quote {text : List Char} (h : ∀ c ∈ text, (c != '"') = true) :
    Reads '"' (text ++ ['"']) (.string (.ofList text)) := by
  intro rest _
  show quote _ = _
  obtain ⟨htake, hdrop⟩ := @takeWhile_run _ _ ('"' :: rest) h (by rintro _ ⟨⟩; rfl)
  simp only [quote, List.append_assoc, List.cons_append, List.nil_append, htake, hdrop]

theorem again_quote {text : List Char} (h : ∀ c ∈ text, (c != '"') = true) :
    Again '"' (text ++ ['"']) (.string (.ofList text)) := (reads_quote h).again

theorem isDigit_eq (c : Char) : isDigit c = c.isDigit := by
  simp only [isDigit, Char.isDigit, Char.le_def, ge_iff_le]

theorem ne_of_isWordPart {c d : Char} (h : isWordPart c = true) (hd : isWordPart d = false) :
    (c == d) = false := by
  rw [beq_eq_false_iff_ne]
  rintro rfl
  rw [h] at hd
  cases hd

/-- A character that is part of a word is no token by itself. -/
theorem single?_of_isWordPart {c : Char} (h : isWordPart c = true) : single? c = none := by
  have hpunctuator : punctuator? c = none := by
    unfold punctuator?
    split <;> first | rfl | cases h
  simp only [single?, hpunctuator, isBlank, ne_of_isWordPart h (rfl : isWordPart ' ' = false),
    ne_of_isWordPart h (rfl : isWordPart '\r' = false),
    ne_of_isWordPart h (rfl : isWordPart '\t' = false),
    ne_of_isWordPart h (rfl : isWordPart '\n' = false), Bool.or_self, Bool.false_eq_true, if_false]

theorem operator?_of_isWordPart {c : Char} (h : isWordPart c = true) : operator? c = none := by
  unfold operator?
  split <;> first | rfl | cases h

theorem span_digit {c : Char} (h : isDigit c = true) (cs : List Char) :
    span c cs = number c cs := by
  have hpart : isWordPart c = true := by rw [isWordPart, h, Bool.or_true]
  simp only [span, single?_of_isWordPart hpart, operator?_of_isWordPart hpart,
    ne_of_isWordPart hpart (rfl : isWordPart '/' = false),
    ne_of_isWordPart hpart (rfl : isWordPart '"' = false), h, if_true, Bool.false_eq_true, if_false]

/-- No word begins with a digit. -/
theorem isDigit_of_isWordStart {c : Char} (h : isWordStart c = true) : isDigit c = false := by
  rw [Bool.eq_false_iff]
  intro hd
  simp only [isWordStart, isDigit, Bool.or_eq_true, Bool.and_eq_true, decide_eq_true_eq,
    Char.le_def, UInt32.le_iff_toNat_le, beq_iff_eq] at h hd
  obtain ⟨h₁, h₂⟩ := hd
  obtain (⟨h₃, h₄⟩ | ⟨h₃, h₄⟩) | rfl := h
  · exact absurd (Nat.le_trans h₃ h₂) (by decide)
  · exact absurd (Nat.le_trans h₃ h₂) (by decide)
  · exact absurd h₂ (by decide)

theorem span_word {c : Char} (h : isWordStart c = true) (cs : List Char) :
    span c cs = word c cs := by
  have hpart : isWordPart c = true := by rw [isWordPart, h, Bool.true_or]
  simp only [span, single?_of_isWordPart hpart, operator?_of_isWordPart hpart,
    ne_of_isWordPart hpart (rfl : isWordPart '/' = false),
    ne_of_isWordPart hpart (rfl : isWordPart '"' = false), isDigit_of_isWordStart h, h, if_true,
    Bool.false_eq_true, if_false]

/-- A numeral is scanned again: a point belongs to it only if digits follow. -/
theorem reads_number {c : Char} {whole fraction : List Char}
    (hdigits : ∀ d ∈ c :: whole ++ fraction, isDigit d = true) :
    Reads c (whole ++ if fraction = [] then [] else '.' :: fraction)
      (.number (Number.ofDigits (c :: whole) fraction)) := by
  intro rest hrest
  have hc : isDigit c = true := hdigits c (by simp)
  have hwhole : ∀ d ∈ whole, isDigit d = true := fun d hd => hdigits d (by simp [hd])
  have hstop := hrest.not_isDigit
  rw [span_digit hc]
  cases fraction with
  | nil =>
    rw [if_pos rfl, List.append_nil]
    obtain ⟨htake, hdrop⟩ := takeWhile_run hwhole hstop
    simp only [number, htake, hdrop]
    split
    · exact absurd rfl (hrest.ne_of_mem (by decide))
    · rfl
  | cons d ds =>
    have hd : isDigit d = true := hdigits d (by simp)
    have hds : ∀ e ∈ ds, isDigit e = true := fun e he => hdigits e (by simp [he])
    rw [if_neg (List.cons_ne_nil d ds), List.append_assoc]
    obtain ⟨htake, hdrop⟩ := @takeWhile_run _ _ ('.' :: d :: ds ++ rest) hwhole
      (by rintro _ ⟨⟩; rfl)
    obtain ⟨htake', hdrop'⟩ := takeWhile_run hds hstop
    simp only [List.cons_append] at htake hdrop
    simp only [number, List.cons_append, htake, hdrop, hd, if_true, htake', hdrop']

theorem again_number {c : Char} {whole fraction : List Char}
    (hdigits : ∀ d ∈ c :: whole ++ fraction, isDigit d = true) :
    Again c (whole ++ if fraction = [] then [] else '.' :: fraction)
      (.number (Number.ofDigits (c :: whole) fraction)) := (reads_number hdigits).again

theorem reads_word {c : Char} {cs : List Char} (h : isWordStart c = true)
    (hcs : ∀ d ∈ cs, isWordPart d = true) : Reads c cs (.ofWord (.ofList (c :: cs))) := by
  intro rest hrest
  obtain ⟨htake, hdrop⟩ := takeWhile_run hcs fun d hd => (hrest d hd).1
  rw [span_word h, word, htake, hdrop]

theorem again_word {c : Char} {cs : List Char} (h : isWordStart c = true)
    (hcs : ∀ d ∈ cs, isWordPart d = true) : Again c cs (.ofWord (.ofList (c :: cs))) :=
  (reads_word h hcs).again

/-! ## Scanned tokens are genuine -/

theorem genuine_of_again {c : Char} {cs : List Char} {kind : Kind} {line : Nat}
    (h : Again c cs kind)
    (hspelled : ∀ text, kind.spelling? = some text → String.ofList (c :: cs) = text)
    (hquoted : ∀ text, kind = .string text →
      String.ofList (c :: cs) = String.ofList (inQuotes text.toList) ∧
        ∀ c ∈ text.toList, (c != '"') = true)
    (hliteral : ∀ value, kind = .number value →
      ∃ whole fraction, value = Number.ofDigits whole fraction)
    (heof : kind ≠ .eof) : Token.Genuine ⟨kind, .ofList (c :: cs), line⟩ where
  scans rest hrest := by
    rw [String.toList_ofList]
    exact plainScan_of_token (h rest hrest)
  spelled := hspelled
  quoted := hquoted
  literal := hliteral
  isEof := by simpa [Token.isEof] using heof

/-- The only spelling of a kind is genuine if it is scanned again. -/
theorem genuine_fixed {c : Char} {cs : List Char} {kind : Kind} {line : Nat}
    (h : Again c cs kind) (hspelling : kind.spelling? = some (.ofList (c :: cs))) :
    Token.Genuine ⟨kind, .ofList (c :: cs), line⟩ := by
  refine genuine_of_again h (fun text ht => ?_) (fun text ht => ?_) (fun value hv => ?_) fun he => ?_
  · rw [hspelling] at ht
    exact Option.some.inj ht
  · rw [ht] at hspelling; cases hspelling
  · rw [hv] at hspelling; cases hspelling
  · rw [he] at hspelling; cases hspelling

theorem genuine_identifier {c : Char} {cs : List Char} {line : Nat}
    (h : Again c cs .identifier) : Token.Genuine ⟨.identifier, .ofList (c :: cs), line⟩ :=
  genuine_of_again h nofun nofun nofun nofun

theorem spelling?_ofWord (word : String) :
    Kind.ofWord word = .identifier ∨ (Kind.ofWord word).spelling? = some word := by
  rw [Kind.ofWord]
  cases h : Kind.keywords.lookup word with
  | none => exact .inl rfl
  | some kind =>
    have hall : ∀ entry ∈ Kind.keywords, entry.2.spelling? = some entry.1 := by decide
    obtain ⟨before, after, hkeywords, _⟩ := List.lookup_eq_some_iff.1 h
    exact .inr (hall (word, kind) (by rw [hkeywords]; simp))

theorem spelling?_single {c : Char} {kind : Kind} (h : single? c = some (.token kind)) :
    kind.spelling? = some (.ofList [c]) := by
  have hpunctuator := punctuator?_of_single? h
  unfold punctuator? at hpunctuator
  split at hpunctuator <;> cases hpunctuator <;> rfl

theorem spelling?_operator {c : Char} {kinds : Kind × Kind} (h : operator? c = some kinds) :
    kinds.1.spelling? = some (.ofList [c]) ∧ kinds.2.spelling? = some (.ofList [c, '=']) := by
  unfold operator? at h
  split at h <;> cases h <;> exact ⟨rfl, rfl⟩

theorem genuine_slash {cs : List Char} {kind : Kind} {line : Nat}
    (h : (slash cs).piece = .token kind) :
    Token.Genuine ⟨kind, .ofList (slash cs).text, line⟩ := by
  unfold slash at h ⊢
  split at h
  · cases h
  · split at h <;> cases h
  · cases h
    exact genuine_fixed reads_slash.again rfl

theorem genuine_quote {cs : List Char} {kind : Kind} {line : Nat}
    (h : (quote cs).piece = .token kind) :
    Token.Genuine ⟨kind, .ofList (quote cs).text, line⟩ := by
  simp only [quote] at h ⊢
  split at h
  · cases h
    have hunquoted : ∀ c ∈ cs.takeWhile (· != '"'), (c != '"') = true := fun c hc =>
      List.mem_takeWhile_imp (p := (· != '"')) hc
    refine genuine_of_again (again_quote hunquoted) (fun _ h => ?_) ?_ (fun _ h => ?_) fun h => ?_
    · cases h
    · rintro _ ⟨⟩
      rw [String.toList_ofList, inQuotes]
      exact ⟨rfl, hunquoted⟩
    · cases h
    · cases h
  · cases h

theorem genuine_numeral {c : Char} {whole fraction : List Char} {line : Nat}
    (hdigits : ∀ d ∈ c :: whole ++ fraction, isDigit d = true) :
    Token.Genuine ⟨.number (Number.ofDigits (c :: whole) fraction),
      .ofList (c :: (whole ++ if fraction = [] then [] else '.' :: fraction)), line⟩ := by
  refine genuine_of_again (again_number hdigits) nofun nofun ?_ nofun
  rintro _ ⟨⟩
  exact ⟨_, _, rfl⟩

theorem genuine_number {c : Char} {cs : List Char} {kind : Kind} {line : Nat}
    (hc : isDigit c = true) (h : (number c cs).piece = .token kind) :
    Token.Genuine ⟨kind, .ofList (number c cs).text, line⟩ := by
  have hwhole : ∀ d ∈ c :: cs.takeWhile isDigit, isDigit d = true := by
    intro d hd
    obtain rfl | hd := List.mem_cons.1 hd
    · exact hc
    · exact List.mem_takeWhile_imp hd
  have hplain : Token.Genuine ⟨.number (Number.ofDigits (c :: cs.takeWhile isDigit) []),
      .ofList (c :: cs.takeWhile isDigit), line⟩ := by
    simpa using @genuine_numeral c _ [] line (by simpa using hwhole)
  simp only [number] at h ⊢
  split at h
  · rename_i d ds hdrop
    split at h
    · rename_i hd
      cases h
      rw [if_pos hd]
      refine @genuine_numeral c _ (d :: ds.takeWhile isDigit) _ ?_
      intro e he
      obtain he | he := List.mem_append.1 he
      · exact hwhole e he
      · obtain rfl | he := List.mem_cons.1 he
        · exact hd
        · exact List.mem_takeWhile_imp he
    · rename_i hd
      cases h
      rw [if_neg hd]
      exact hplain
  · cases h
    exact hplain

theorem genuine_word {c : Char} {cs : List Char} {kind : Kind} {line : Nat}
    (hc : isWordStart c = true) (h : (word c cs).piece = .token kind) :
    Token.Genuine ⟨kind, .ofList (word c cs).text, line⟩ := by
  have hagain := @again_word c (cs.takeWhile isWordPart) hc fun d hd => List.mem_takeWhile_imp hd
  cases h
  rw [word]
  obtain hword | hword := spelling?_ofWord (.ofList (c :: cs.takeWhile isWordPart))
  · rw [hword] at hagain ⊢
    exact genuine_identifier hagain
  · exact genuine_fixed hagain hword

/-- A span that is a token is genuine. -/
theorem genuine_span {c : Char} {cs : List Char} {kind : Kind} {line : Nat}
    (h : (span c cs).piece = .token kind) :
    Token.Genuine ⟨kind, .ofList (span c cs).text, line⟩ := by
  obtain ⟨piece, hsingle, hspan⟩ | ⟨kinds, hoperator, hspan⟩ | ⟨-, hspan⟩ | ⟨-, hspan⟩ |
    ⟨hdigit, hspan⟩ | ⟨hword, hspan⟩ | hspan := span_cases c cs
  all_goals rw [hspan] at h ⊢
  · obtain rfl : piece = .token kind := h
    exact genuine_fixed (reads_single hsingle).again (spelling?_single hsingle)
  · obtain ⟨hplain, hequals⟩ := again_operator hoperator
    obtain ⟨hs, hs'⟩ := spelling?_operator hoperator
    unfold operator at h ⊢
    split at h
    · cases h; exact genuine_fixed hequals hs'
    · cases h; exact genuine_fixed hplain hs
  · exact genuine_slash h
  · exact genuine_quote h
  · exact genuine_number hdigit h
  · exact genuine_word hword h
  · cases h

end Scan

/-- The tokens of a source before its end marker are genuine, and the end marker
comes last. -/
theorem scanFrom_genuine (line : Nat) (cs : List Char) :
    ∃ items last, scanFrom line cs = items ++ [.token ⟨.eof, "", last⟩] ∧
      ∀ t, ScanItem.token t ∈ items → t.Genuine := by
  induction cs using Scan.spans_induction generalizing line with
  | nil => exact ⟨[], line, by rw [scanFrom]; rfl, nofun⟩
  | span c cs ih =>
    obtain ⟨items, last, hitems, hgenuine⟩ := ih (line + newlines (Scan.span c cs).text)
    rw [scanFrom_cons, hitems]
    refine ⟨_, last, (List.append_assoc _ items _).symm, fun t ht => ?_⟩
    obtain ht | ht := List.mem_append.1 ht
    · obtain ⟨kind, hpiece, rfl⟩ := Span.token_of_item? (Option.mem_toList.1 ht)
      exact Scan.genuine_span hpiece
    · exact hgenuine t ht

/-- The tokens of a source are genuine ones and an end marker. -/
theorem tokens_genuine (source : String) :
    ∃ body last, tokens source = body ++ [⟨.eof, "", last⟩] ∧ ∀ t ∈ body, t.Genuine := by
  obtain ⟨items, last, hscan, hgenuine⟩ := scanFrom_genuine 1 source.toList
  refine ⟨items.filterMap ScanItem.token?, last, ?_, fun t ht => ?_⟩
  · rw [tokens_eq, hscan, List.filterMap_append]
    rfl
  · obtain ⟨item, hitem, htoken⟩ := List.mem_filterMap.1 ht
    cases item with
    | token u => cases htoken; exact hgenuine t hitem
    | error e => cases htoken

end Lox
