import Lox.Proofs.Form.Reread
import Lox.Proofs.Grammar.Exact

/-
  Printing and reading undo each other

  An expression that was parsed or read from genuine tokens is printed as a text
  that is read as the same expression, ids included and lines apart. The printed
  form of what was read has the tokens of the text it was read from, apart from
  their lines and the spelling of numbers.
-/

namespace Lox

open Grammar Parse

/-! ## The printed form of a readable expression -/

theorem map_unlined_inParens (tokens : List Token) :
    (inParens tokens).map Token.unlined = inParens (tokens.map Token.unlined) := by
  rw [inParens, List.map_cons, List.map_append]
  rfl

namespace Expr

mutual

/-- Without its lines, an expression has its tokens without theirs. -/
theorem formTokens_unlined : (e : Expr) → e.unlined.formTokens = e.formTokens.map Token.unlined
  | .number _ | .string _ | .boolean true | .boolean false | .nil | .var _ _ | .self _ _
  | .super _ _ _ => rfl
  | .group inner | .unary _ inner | .assign _ _ inner => by
    rw [formTokens, map_unlined_inParens]
    simp only [List.map_cons, ← formTokens_unlined inner]
    rfl
  | .get object name => by
    rw [formTokens, map_unlined_inParens]
    simp only [List.map_cons, List.map_append, ← formTokens_unlined object]
    rfl
  | .binary left _ right | .logical left _ right => by
    rw [formTokens, map_unlined_inParens]
    simp only [List.map_cons, List.map_append, ← formTokens_unlined left,
      ← formTokens_unlined right]
    rfl
  | .choice condition thenCase elseCase => by
    rw [formTokens, map_unlined_inParens]
    simp only [List.map_cons, List.map_append, ← formTokens_unlined condition,
      ← formTokens_unlined thenCase, ← formTokens_unlined elseCase]
    rfl
  | .comma items => by
    rw [formTokens, map_unlined_inParens]
    simp only [List.map_cons, ← tailTokens_unlined items]
    rfl
  | .call callee _ arguments => by
    rw [formTokens, map_unlined_inParens]
    simp only [List.map_cons, List.map_append, ← formTokens_unlined callee,
      ← tailTokens_unlined arguments]
    rfl
  | .set object _ value => by
    rw [formTokens, map_unlined_inParens]
    simp only [List.map_cons, List.map_append, map_unlined_inParens, List.map_nil,
      ← formTokens_unlined object, ← formTokens_unlined value]
    rfl

theorem tailTokens_unlined : (es : List Expr) →
    tailTokens (relabelAll (fun _ => 0) (fun i => i) es) = (tailTokens es).map Token.unlined
  | [] => rfl
  | e :: es => by
    rw [tailTokens, List.map_append, ← formTokens_unlined e, ← tailTokens_unlined es]
    rfl

end

end Expr

/-- The tokens in front of the end marker of a source. -/
theorem tokens_start (source : String) (n : Nat) {body : List Token} {last : Nat}
    (h : tokens source = body ++ [⟨.eof, "", last⟩]) (hbody : AllGenuine body) :
    (ParseState.start (tokens source) n).rest = body := by
  refine Unmarked.takeWhile_eq ⟨fun t ht => (hbody t ht).isEof, .inr ⟨_, rfl, h⟩⟩

/-- The printed form of an expression that can be written down has its tokens. -/
theorem tokens_printed {e : Expr} (h : e.Readable) :
    lexicalErrors e.printed = [] ∧ ∃ body last, tokens e.printed = body ++ [⟨.eof, "", last⟩] ∧
      AllGenuine body ∧ body.map Token.unlined = e.formTokens.map Token.unlined := by
  have hscan : plainScan e.printed.toList =
      plainItems e.formTokens ++ [.token ⟨.eof, "", 0⟩] := by
    rw [Expr.printed, String.toList_ofList, Expr.plainScan_chars e h]
  have htokens : (plainItems e.formTokens).filterMap ScanItem.token? =
      e.formTokens.map Token.unlined := by
    rw [plainItems, List.filterMap_map]
    exact congrFun List.filterMap_eq_map _
  have herrors : (plainItems e.formTokens).filterMap ScanItem.error? = [] := by
    simp [plainItems, ScanItem.error?]
  obtain ⟨body, last, hbody, hgenuine⟩ := tokens_genuine e.printed
  refine ⟨?_, body, last, hbody, hgenuine, ?_⟩
  · rw [lexicalErrors_eq_nil_iff, hscan, List.filterMap_append, herrors]
    rfl
  · have hmap := map_unlined_tokens e.printed
    rw [hbody, hscan, List.filterMap_append, htokens, List.map_append] at hmap
    exact List.append_cancel_right hmap

/-! ## Reading it back -/

namespace Form

/-- What is read up to the end of the tokens is the result. -/
theorem read_of_form {source : String} {n : Nat} {e : Expr} {t : ParseState}
    (herrors : lexicalErrors source = [])
    (h : form ((tokens source).length + 1) (.start (tokens source) n) = .ok e t)
    (ht : t.rest = []) : read source n = .ok (e, t.nextId) := by
  have hwhole : wholeForm ((tokens source).length + 1) (.start (tokens source) n) = .ok e t := by
    refine (bind_of_ok h).trans ?_
    show (atEnd >>= _) t = _
    rw [bind_of_ok (rfl : atEnd t = .ok t.rest.isEmpty t), ht]
    rfl
  simp only [read, herrors, hwhole]

theorem form_of_read {source : String} {n k : Nat} {e : Expr} (h : read source n = .ok (e, k)) :
    ∃ t, form ((tokens source).length + 1) (.start (tokens source) n) = .ok e t ∧ t.rest = [] ∧
      t.nextId = k := by
  unfold read at h
  split at h
  · cases h
  · dsimp only at h
    split at h
    · rename_i e' t hwhole
      cases h
      obtain ⟨a, u, h₁, h₂⟩ := ok_of_bind hwhole
      obtain ⟨b, v, h₃, h₄⟩ := ok_of_bind h₂
      cases h₃
      split at h₄
      · rename_i hempty
        cases h₄
        exact ⟨t, h₁, List.isEmpty_iff.1 hempty, rfl⟩
      · cases h₄
    · cases h

/-- The printed form of an expression is read as the expression. -/
theorem read_printed {e : Expr} {n k : Nat} (hr : e.Readable) (hn : e.Numbered n k) :
    ∃ e', read e.printed n = .ok (e', k) ∧ e'.unlined = e.unlined := by
  obtain ⟨herrors, body, last, hbody, hgenuine, hunlined⟩ := tokens_printed hr
  have hrest := tokens_start e.printed n hbody hgenuine
  have hlength : e.unlined.formTokens.length ≤ (tokens e.printed).length + 1 := by
    rw [Expr.formTokens_unlined, ← hunlined, hbody, List.length_map, List.length_append]
    omega
  have hplace : (ParseState.start (tokens e.printed) n).move (fun _ => 0) 0 =
      ((ParseState.start (tokens e.printed) n).move (fun _ => 0) 0).at
        ⟨e.unlined.formTokens ++ [], n⟩ := by
    rw [List.append_nil, Expr.formTokens_unlined, ← hunlined, ← hrest]
    rfl
  have hrun := (rereads e hr hn).run _ ((ParseState.start (tokens e.printed) n).move (fun _ => 0) 0)
    [] hlength
  have hfollows := follows_form (fun _ => 0) ((tokens e.printed).length + 1) _
    (ParseState.start (tokens e.printed) n) (Nat.le_refl _)
  rw [hplace, hrun] at hfollows
  cases hform : form ((tokens e.printed).length + 1) (.start (tokens e.printed) n) with
  | ok e' t =>
    rw [hform] at hfollows
    injection hfollows with he ht
    have hnext : t.nextId = k := (congrArg ParseState.nextId ht).symm
    have hend : t.rest = [] := List.map_eq_nil_iff.1 (congrArg ParseState.rest ht).symm
    exact ⟨e', hnext ▸ read_of_form herrors hform hend, he.symm⟩
  | error e' t =>
    rw [hform] at hfollows
    cases hfollows

/-! ## The tokens of the printed form -/

/-- The same token on any line; of numbers, in any spelling. -/
def SameToken (t u : Token) : Prop :=
  t.kind = u.kind ∧ (t.lexeme = u.lexeme ∨ ∃ value, t.kind = .number value)

/-- Apart from names and numbers, genuine tokens of one kind have one spelling. -/
theorem sameToken_of_genuine {t u : Token} (ht : t.Genuine) (hu : u.Genuine)
    (hk : t.kind = u.kind) (hname : t.kind = .identifier → t.lexeme = u.lexeme) :
    SameToken t u := by
  refine ⟨hk, ?_⟩
  cases hspelling : t.kind.spelling? with
  | some text => exact .inl ((ht.spelled text hspelling).trans (hu.spelled text (hk ▸ hspelling)).symm)
  | none =>
    have heof := ht.isEof
    cases hkind : t.kind with
    | identifier => exact .inl (hname hkind)
    | string text =>
      exact .inl ((ht.quoted text hkind).1.trans (hu.quoted text (hk ▸ hkind)).1.symm)
    | number value => exact .inr ⟨value, rfl⟩
    | eof => simp [Token.isEof, hkind] at heof
    | _ => rw [hkind] at hspelling; cases hspelling

/-- The tokens of the printed form are those that the form was read from. -/
theorem sameTokens {printed written expected : List Token}
    (hprinted : printed.map Token.unlined = expected.map Token.unlined)
    (hwritten : List.Forall₂ Token.Alike written expected) (hp : AllGenuine printed)
    (hw : AllGenuine written) : List.Forall₂ SameToken printed written := by
  induction hwritten generalizing printed with
  | nil =>
    obtain rfl := List.map_eq_nil_iff.1 hprinted
    exact .nil
  | cons halike _ ih =>
    cases printed with
    | nil => cases hprinted
    | cons t ts =>
      rw [List.map_cons, List.map_cons, List.cons.injEq, Token.unlined_eq_iff] at hprinted
      obtain ⟨⟨hkind, hlexeme⟩, hrest⟩ := hprinted
      refine .cons ?_ (ih hrest hp.tail hw.tail)
      refine sameToken_of_genuine hp.head hw.head (hkind.trans halike.1.symm) fun hid => ?_
      exact hlexeme.trans (halike.2 (halike.1.trans (hkind.symm.trans hid))).symm

/-! ## Both directions -/

/-- A token that a source has. -/
def Scanned (t : Token) : Prop := ∃ source, t ∈ tokens source

theorem Scanned.genuine {t : Token} (h : Scanned t) (ht : t.isEof = false) : t.Genuine := by
  obtain ⟨source, h⟩ := h
  obtain ⟨body, last, hbody, hgenuine⟩ := tokens_genuine source
  rw [hbody, List.mem_append, List.mem_singleton] at h
  obtain h | rfl := h
  · exact hgenuine t h
  · cases ht

/-- A parsed expression with finite literals can be written down, and its nodes
are numbered from left to right. -/
theorem readable_of_parsed {tokens : List Token} {e : Expr} {n k : Nat}
    (h : parseExpression tokens n = ⟨.ok e, k⟩) (htokens : ∀ t ∈ tokens, Scanned t)
    (he : e.Finite) : e.Readable ∧ e.Numbered n k := by
  obtain ⟨q, ⟨hderives, _⟩, rfl⟩ := runRule_sound (sound_wholeExpression (Nat.le_succ _)) h
  refine ⟨hderives.readable (fun t ht => ?_) he, hderives.numbered⟩
  refine (htokens t (List.takeWhile_subset _ ht)).genuine ?_
  simpa using List.mem_takeWhile_imp ht

/-- What was read can be written down, and has the tokens of its text. -/
theorem covers_of_read {source : String} {e : Expr} {n k : Nat}
    (h : read source n = .ok (e, k)) (he : e.Finite) :
    e.Readable ∧ e.Numbered n k ∧ ∃ body last, tokens source = body ++ [⟨.eof, "", last⟩] ∧
      AllGenuine body ∧ List.Forall₂ Token.Alike body e.formTokens := by
  obtain ⟨t, hform, hend, rfl⟩ := form_of_read h
  obtain ⟨body, last, hbody, hgenuine⟩ := tokens_genuine source
  have hcovers := yields_form _ _ _ _ hform
  have hstart : ((ParseState.start (tokens source) n).place).tokens = body :=
    tokens_start source n hbody hgenuine
  obtain ⟨front, hfront, halike⟩ := hcovers.consumes
  have hfull : front = body := by
    rw [← hstart, hfront, ParseState.place, hend, List.append_nil]
  refine ⟨hcovers.readable (hstart ▸ hgenuine) he, hcovers.numbered, body, last, hbody, hgenuine, ?_⟩
  exact hfull ▸ halike

/-- Printing and reading are inverse to each other, for expressions with finite
literals: what was parsed or read is printed as a text that is read as the same
expression, lines apart, and this text has the tokens of the one it was read
from. -/
theorem print_read_inverse :
    (∀ (source : List Token) (e : Expr) (firstId nextId : Nat),
      (∀ t ∈ source, Scanned t) → parseExpression source firstId = ⟨.ok e, nextId⟩ → e.Finite →
      ∃ e', read e.printed firstId = .ok (e', nextId) ∧ e'.unlined = e.unlined) ∧
    (∀ (source : String) (e : Expr) (firstId nextId : Nat),
      read source firstId = .ok (e, nextId) → e.Finite →
      (∃ e', read e.printed firstId = .ok (e', nextId) ∧ e'.unlined = e.unlined) ∧
      lexicalErrors e.printed = [] ∧
      List.Forall₂ SameToken (tokens e.printed) (tokens source)) := by
  refine ⟨fun source e n k hsource h he => ?_, fun source e n k h he => ?_⟩
  · obtain ⟨hreadable, hnumbered⟩ := readable_of_parsed h hsource he
    exact read_printed hreadable hnumbered
  · obtain ⟨hreadable, hnumbered, written, last, hwritten, hw, halike⟩ := covers_of_read h he
    obtain ⟨herrors, printed, last', hprinted, hp, hunlined⟩ := tokens_printed hreadable
    refine ⟨read_printed hreadable hnumbered, herrors, ?_⟩
    rw [hprinted, hwritten]
    exact List.rel_append (sameTokens hunlined halike hp hw) (.cons ⟨rfl, .inl rfl⟩ .nil)

/-- The negation of a half, as a program writes it. -/
def minusHalf : List Token :=
  [⟨.minus, "-", 1⟩, ⟨.number (Number.ofDigits ['0'] ['5']), "0.5", 1⟩, ⟨.eof, "", 1⟩]

def minusHalfTree : Expr :=
  .unary ⟨.minus, "-", 1⟩ (.number (Number.ofDigits ['0'] ['5']))

theorem tokens_minusHalf : tokens "-0.5" = minusHalf := by
  have hminus : Scan.span '-' ['0', '.', '5'] = ⟨.token .minus, ['-'], ['0', '.', '5']⟩ := rfl
  have hhalf : Scan.span '0' ['.', '5'] =
      ⟨.token (.number (Number.ofDigits ['0'] ['5'])), ['0', '.', '5'], []⟩ :=
    @Scan.again_number '0' [] ['5'] (List.all_eq_true.1 (by decide)) [] stops_nil
  have hchars : "-0.5".toList = ['-', '0', '.', '5'] := by simp
  rw [tokens_eq, hchars, scanFrom_cons, hminus, scanFrom_cons, hhalf, scanFrom]
  rfl

/-- A negation written as a form, of a call with a parenthesis in a text. -/
def signedCall : String := "(- (call f \"(\"))"

def signedCallTree : Expr :=
  .unary ⟨.minus, "-", 1⟩
    (.call (.var 0 ⟨.identifier, "f", 1⟩) ⟨.rightParen, ")", 1⟩ [.string "("])

theorem print_read_inverse_minus :
    ((∀ t ∈ minusHalf, Scanned t) ∧ parseExpression minusHalf 0 = ⟨.ok minusHalfTree, 0⟩ ∧
      minusHalfTree.Finite ∧
      ∃ e', read minusHalfTree.printed 0 = .ok (e', 0) ∧ e'.unlined = minusHalfTree.unlined) ∧
    read signedCall 0 = .ok (signedCallTree, 1) ∧ signedCallTree.Finite ∧
      List.Forall₂ SameToken (tokens signedCallTree.printed) (tokens signedCall) := by
  have hscanned : ∀ t ∈ minusHalf, Scanned t := fun t ht => ⟨"-0.5", tokens_minusHalf ▸ ht⟩
  have hparse : parseExpression minusHalf 0 = ⟨.ok minusHalfTree, 0⟩ := rfl
  have hfinite : minusHalfTree.Finite := by
    show Number.IsFinite _
    rw [Number.IsFinite, Number.ofDigits, Number.Decimal.toFloat, Number.nearest,
      Number.decode_ofBits (Number.nearestBits_le _ _)]
    exact ⟨false, 2 ^ 52, -53, by decide⟩
  have hread : read signedCall 0 = .ok (signedCallTree, 1) := by
    rw [read, lexicalErrors_eq, tokens_eq]
    cbv
  have hplain : signedCallTree.Finite := ⟨trivial, trivial, trivial⟩
  exact ⟨⟨hscanned, hparse, hfinite, print_read_inverse.1 _ _ _ _ hscanned hparse hfinite⟩,
    hread, hplain, (print_read_inverse.2 _ _ _ _ hread hplain).2.2⟩

end Form
end Lox
