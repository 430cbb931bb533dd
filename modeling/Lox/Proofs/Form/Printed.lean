import Lox.Expr.Printed
import Lox.Proofs.Token.Genuine

/-
  The tokens of printed forms

  `Expr.formTokens` are the tokens of the printed form of an expression, whose
  names and operators are the tokens of the expression itself. An expression
  whose tokens are genuine and whose literals can be written down
  (`Expr.Readable`) has a printed form that is scanned as these tokens: behind
  each token stands a blank or a closing parenthesis.
-/

namespace Lox

/-- The token of a kind that has only one spelling. -/
def Token.fixed (kind : Kind) : Token := ⟨kind, kind.spelling?.getD "", 0⟩

/-- The token of a name. -/
def Token.name (lexeme : String) : Token := ⟨.identifier, lexeme, 0⟩

/-- Tokens between parentheses. -/
def inParens (tokens : List Token) : List Token :=
  .fixed .leftParen :: (tokens ++ [.fixed .rightParen])

namespace Expr

mutual

/-- The tokens of an expression's printed form. -/
def formTokens : Expr → List Token
  | number value => [⟨.number value, .ofList (numberFormat.chars value), 0⟩]
  | string text => [⟨.string text, .ofList (inQuotes text.toList), 0⟩]
  | boolean true => [.fixed .trueWord]
  | boolean false => [.fixed .falseWord]
  | nil => [.fixed .nilWord]
  | group inner => inParens (.name "group" :: inner.formTokens)
  | unary operator operand => inParens (operator :: operand.formTokens)
  | binary left operator right => inParens (operator :: (left.formTokens ++ right.formTokens))
  | logical left operator right => inParens (operator :: (left.formTokens ++ right.formTokens))
  | choice condition thenCase elseCase =>
    inParens (.fixed .question :: .fixed .colon ::
      (condition.formTokens ++ (thenCase.formTokens ++ elseCase.formTokens)))
  | comma items => inParens (.fixed .comma :: tailTokens items)
  | var _ name => [name]
  | assign _ name value => inParens (.fixed .equal :: name :: value.formTokens)
  | call callee _ arguments =>
    inParens (.name "call" :: (callee.formTokens ++ tailTokens arguments))
  | get object name => inParens (.fixed .dot :: (object.formTokens ++ [name]))
  | set object name value =>
    inParens (.fixed .equal ::
      (inParens (.fixed .dot :: (object.formTokens ++ [name])) ++ value.formTokens))
  | self _ _ => [.fixed .thisWord]
  | super _ _ method => inParens [.fixed .superWord, method]

/-- The tokens of expressions one after another. -/
def tailTokens : List Expr → List Token
  | [] => []
  | e :: es => e.formTokens ++ tailTokens es

end

/-- The operators of two operands that are always evaluated. Forms, but no
programs, have a negation of two operands. -/
def binaryKinds : List Kind :=
  [.bang, .plus, .minus, .star, .slash, .equalEqual, .bangEqual, .greater, .greaterEqual, .less,
   .lessEqual]

/-- A genuine token of one of the given kinds. -/
def HasToken (t : Token) (kinds : List Kind) : Prop := t.Genuine ∧ t.kind ∈ kinds

mutual

/-- An expression that can be written down: its tokens are genuine and of the
kinds they stand for, its texts have no quote in them, and its numbers are
finite. -/
def Readable : Expr → Prop
  | number value => ∃ m q, Number.decode value = .finite false m q
  | string text => ∀ c ∈ text.toList, (c != '"') = true
  | boolean _ | nil => True
  | group inner => inner.Readable
  | unary operator operand => HasToken operator [.bang, .minus] ∧ operand.Readable
  | binary left operator right =>
    left.Readable ∧ HasToken operator binaryKinds ∧ right.Readable
  | logical left operator right =>
    left.Readable ∧ HasToken operator [.andWord, .orWord] ∧ right.Readable
  | choice condition thenCase elseCase =>
    condition.Readable ∧ thenCase.Readable ∧ elseCase.Readable
  | comma items => AllReadable items
  | var _ name => HasToken name [.identifier]
  | assign _ name value => HasToken name [.identifier] ∧ value.Readable
  | call callee paren arguments =>
    callee.Readable ∧ HasToken paren [.rightParen] ∧ AllReadable arguments
  | get object name => object.Readable ∧ HasToken name [.identifier]
  | set object name value => object.Readable ∧ HasToken name [.identifier] ∧ value.Readable
  | self _ keyword => HasToken keyword [.thisWord]
  | super _ keyword method => HasToken keyword [.superWord] ∧ HasToken method [.identifier]

/-- The same for several expressions. -/
def AllReadable : List Expr → Prop
  | [] => True
  | e :: es => e.Readable ∧ AllReadable es

end

end Expr

/-! ## Scanning printed forms -/

theorem stops_blank (rest : List Char) : Stops (' ' :: rest) := by
  rintro _ ⟨⟩
  exact .inl rfl

theorem stops_paren (rest : List Char) : Stops (')' :: rest) := by
  rintro _ ⟨⟩
  exact .inr rfl

theorem stops_nil : Stops [] := nofun

/-- Tokens as scanned items. -/
def plainItems (tokens : List Token) : List ScanItem := tokens.map fun t => .token t.unlined

theorem plainScan_blank (rest : List Char) : plainScan (' ' :: rest) = plainScan rest :=
  plainScan_of_blank rfl

/-- A token that is made of one character is scanned before anything. -/
theorem plainScan_single {c : Char} {kind : Kind} (h : Scan.single? c = some (.token kind))
    (rest : List Char) :
    plainScan (c :: rest) = .token (Token.fixed kind).unlined :: plainScan rest := by
  have hspan : Scan.span c rest = ⟨.token kind, [c], rest⟩ := by rw [Scan.span, h]
  rw [plainScan_of_token hspan, Token.fixed, Scan.spelling?_single h]
  rfl

/-- `Scans text tokens`: before everything that stops it, the text is scanned as
these tokens. -/
def Scans (text : List Char) (tokens : List Token) : Prop :=
  ∀ rest, Stops rest → plainScan (text ++ rest) = plainItems tokens ++ plainScan rest

namespace Scans

theorem token {t : Token} (h : t.Genuine) : Scans t.lexeme.toList [t] := h.scans

/-- A text before a blank and another text. -/
theorem blank {text more : List Char} {tokens others : List Token} (h : Scans text tokens)
    (h' : Scans more others) : Scans (text ++ ' ' :: more) (tokens ++ others) := by
  intro rest hrest
  rw [List.append_assoc, List.cons_append, h _ (stops_blank _), plainScan_blank, h' rest hrest,
    plainItems, plainItems, plainItems, List.map_append, List.append_assoc]

/-- A text behind a character that is a token by itself. -/
theorem single {c : Char} {kind : Kind} (hc : Scan.single? c = some (.token kind))
    {text : List Char} {tokens : List Token} (h : Scans text tokens) :
    Scans (c :: text) (.fixed kind :: tokens) := by
  intro rest hrest
  rw [List.cons_append, plainScan_single hc, h rest hrest]
  rfl

theorem parens {head : String} {text : List Char} {tokens : List Token}
    (h : Scans (head.toList ++ text) tokens) :
    Scans (Expr.parens head text) (inParens tokens) := by
  intro rest _
  have hopening := @plainScan_single '(' .leftParen rfl
  have hclosing := @plainScan_single ')' .rightParen rfl
  rw [Expr.parens, List.cons_append, hopening, List.append_assoc, List.cons_append, List.nil_append,
    h _ (stops_paren _), hclosing, inParens]
  simp [plainItems]

end Scans

theorem genuine_name {c : Char} {cs : List Char} (h : Scan.isWordStart c = true)
    (hcs : cs.all Scan.isWordPart = true)
    (hword : Kind.ofWord (.ofList (c :: cs)) = .identifier) :
    (Token.name (.ofList (c :: cs))).Genuine :=
  Scan.genuine_identifier (hword ▸ Scan.again_word h (List.all_eq_true.1 hcs))

theorem genuine_group : (Token.name "group").Genuine :=
  @genuine_name 'g' ['r', 'o', 'u', 'p'] (by decide) (by decide) (by decide)

theorem genuine_call : (Token.name "call").Genuine :=
  @genuine_name 'c' ['a', 'l', 'l'] (by decide) (by decide) (by decide)

/-- A finite number is written as a numeral that is scanned as the number. -/
theorem genuine_number {value : Float} {m : Nat} {q : Int}
    (h : Number.decode value = .finite false m q) :
    Token.Genuine ⟨.number value, .ofList (Expr.numberFormat.chars value), 0⟩ := by
  obtain ⟨whole, fraction, hspells⟩ := Number.Plain.exists_spelling (f := Expr.numberFormat) rfl h
  cases whole with
  | nil => exact absurd rfl hspells.whole_ne_nil
  | cons c whole =>
    rw [hspells.text_eq, ← hspells.value_eq]
    exact Scan.genuine_numeral fun d hd => by rw [Scan.isDigit_eq]; exact hspells.isDigit d hd

theorem genuine_string {text : String} (h : ∀ c ∈ text.toList, (c != '"') = true) :
    Token.Genuine ⟨.string text, .ofList (inQuotes text.toList), 0⟩ := by
  have hagain := Scan.again_quote h
  rw [String.ofList_toList] at hagain
  refine Scan.genuine_of_again hagain nofun ?_ nofun nofun
  rintro _ ⟨⟩
  exact ⟨rfl, h⟩

namespace Scans

theorem nil : Scans [] [] := fun _ _ => rfl

theorem afterBlank {text : List Char} {tokens : List Token} (h : Scans text tokens) :
    Scans (' ' :: text) tokens := by
  intro rest hrest
  rw [List.cons_append, plainScan_blank, h rest hrest]

/-- The same text, written down in another way. -/
theorem of_eq {text text' : List Char} {tokens : List Token} (h : Scans text' tokens)
    (heq : text = text') : Scans text tokens := heq ▸ h

/-- A keyword or an operator of several characters. -/
theorem fixed {c : Char} {cs : List Char} {kind : Kind} (h : Scan.Again c cs kind)
    (hspelling : kind.spelling? = some (.ofList (c :: cs))) : Scans (c :: cs) [.fixed kind] := by
  have := token (@Scan.genuine_fixed _ _ _ 0 h hspelling)
  rwa [String.toList_ofList, ← Option.getD_some (a := String.ofList (c :: cs)) (b := ""),
    ← hspelling] at this

theorem equal : Scans "=".toList [.fixed .equal] :=
  .of_eq (fixed (Scan.again_operator (rfl : Scan.operator? '=' = some (.equal, .equalEqual))).1 rfl)
    (by simp)

/-- A keyword is a word of its own. -/
theorem keyword {word : String} (c : Char) (cs : List Char) {kind : Kind}
    (h : Scan.isWordStart c = true) (hcs : cs.all Scan.isWordPart = true)
    (hkind : Kind.ofWord (.ofList (c :: cs)) = kind)
    (hspelling : kind.spelling? = some (.ofList (c :: cs))) (hword : word.toList = c :: cs) :
    Scans word.toList [.fixed kind] :=
  .of_eq (fixed (hkind ▸ Scan.again_word h (List.all_eq_true.1 hcs)) hspelling) hword

theorem trueWord : Scans "true".toList [.fixed .trueWord] :=
  keyword 't' ['r', 'u', 'e'] (by decide) (by decide) (by decide) (by decide) (by simp)

theorem falseWord : Scans "false".toList [.fixed .falseWord] :=
  keyword 'f' ['a', 'l', 's', 'e'] (by decide) (by decide) (by decide) (by decide) (by simp)

theorem nilWord : Scans "nil".toList [.fixed .nilWord] :=
  keyword 'n' ['i', 'l'] (by decide) (by decide) (by decide) (by decide) (by simp)

theorem thisWord : Scans "this".toList [.fixed .thisWord] :=
  keyword 't' ['h', 'i', 's'] (by decide) (by decide) (by decide) (by decide) (by simp)

theorem superWord : Scans "super".toList [.fixed .superWord] :=
  keyword 's' ['u', 'p', 'e', 'r'] (by decide) (by decide) (by decide) (by decide) (by simp)

end Scans

namespace Expr

mutual

/-- The printed form of an expression is scanned as its tokens. -/
theorem scans_chars : (e : Expr) → e.Readable → Scans e.chars e.formTokens
  | .number value, ⟨m, q, h⟩ => by
    have := Scans.token (genuine_number h)
    rwa [String.toList_ofList] at this
  | .string text, h => by
    have := Scans.token (genuine_string h)
    rwa [String.toList_ofList] at this
  | .boolean true, _ => .trueWord
  | .boolean false, _ => .falseWord
  | .nil, _ => .nilWord
  | .group inner, h => .parens (.blank (.token genuine_group) (scans_chars inner h))
  | .unary operator operand, ⟨ho, h⟩ => .parens (.blank (.token ho.1) (scans_chars operand h))
  | .binary left operator right, ⟨hl, ho, hr⟩ =>
    .parens (.blank (.token ho.1) (.blank (scans_chars left hl) (scans_chars right hr)))
  | .logical left operator right, ⟨hl, ho, hr⟩ =>
    .parens (.blank (.token ho.1) (.blank (scans_chars left hl) (scans_chars right hr)))
  | .choice condition thenCase elseCase, ⟨hc, ht, he⟩ =>
    .parens (.of_eq (.single (c := '?') rfl (.single (c := ':') rfl (.afterBlank (.blank
      (scans_chars condition hc) (.blank (scans_chars thenCase ht) (scans_chars elseCase he))))))
      (by simp))
  | .comma items, h =>
    .parens (scans_tailChars items h (.of_eq (.single (c := ',') rfl .nil) (by simp)))
  | .var _ name, h => .token h.1
  | .assign _ name value, ⟨hn, hv⟩ =>
    .parens (.blank .equal (.blank (.token hn.1) (scans_chars value hv)))
  | .call callee _ arguments, ⟨hc, _, ha⟩ =>
    .parens (.of_eq (scans_tailChars arguments ha (.blank (.token genuine_call)
      (scans_chars callee hc))) (by simp [Token.name]))
  | .get object name, ⟨ho, hn⟩ => scans_property object ho hn
  | .set object name value, ⟨ho, hn, hv⟩ =>
    .parens (.blank .equal (.blank (scans_property object ho hn) (scans_chars value hv)))
  | .self _ _, _ => .thisWord
  | .super _ _ method, ⟨_, hm⟩ => .parens (.blank .superWord (.token hm.1))

/-- A property of an object, which is also the target of an assignment. -/
theorem scans_property (object : Expr) (ho : object.Readable) {name : Token}
    (hn : HasToken name [.identifier]) :
    Scans (parens "." (' ' :: object.chars ++ ' ' :: spelling name))
      (inParens (.fixed .dot :: (object.formTokens ++ [name]))) :=
  .parens (.of_eq (.single (c := '.') rfl (.afterBlank (.blank (scans_chars object ho)
    (.token hn.1)))) (by simp [spelling]))

/-- Expressions behind a text are scanned as their tokens, in turn. -/
theorem scans_tailChars : (items : List Expr) → AllReadable items →
    ∀ {text : List Char} {tokens : List Token}, Scans text tokens →
      Scans (text ++ tailChars items) (tokens ++ tailTokens items)
  | [], _, text, tokens, h => by
    rw [tailChars, tailTokens, List.append_nil, List.append_nil]
    exact h
  | e :: es, ⟨he, hes⟩, text, tokens, h => by
    have := scans_tailChars es hes (h.blank (scans_chars e he))
    rw [tailChars, tailTokens]
    simpa using this

end

/-- The printed form of an expression has no lexical errors, and its tokens. -/
theorem plainScan_chars (e : Expr) (h : e.Readable) :
    plainScan e.chars = plainItems e.formTokens ++ [.token ⟨.eof, "", 0⟩] := by
  have := scans_chars e h [] stops_nil
  rwa [List.append_nil, plainScan_nil] at this

end Expr
end Lox
