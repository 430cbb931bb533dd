import Lox.Proofs.Token.Genuine

/-
  Layout — where the items of a source lie

  The items of a source lie in it one after another, each on bytes of its own.
  All that is between them is blanks, newlines and complete comments, so nothing
  of the text is lost, and an item says nothing that its bytes do not say
  (`scan_laidOut`).
-/

namespace Lox

/-! ## What is between items -/

/-- `Skipped after text`: before `after` the text is blanks, newlines and complete
comments. A comment on a line goes on up to a newline or the end of the source, and a
comment in marks up to the first mark that ends it. -/
inductive Skipped (after : List Char) : List Char → Prop
  | nil : Skipped after []
  | blank {c : Char} {rest : List Char} :
      c ∈ [' ', '\r', '\t', '\n'] → Skipped after rest → Skipped after (c :: rest)
  | lineComment {text rest : List Char} :
      '\n' ∉ text → (∀ c ∈ (rest ++ after).head?, c = '\n') → Skipped after rest →
      Skipped after ('/' :: '/' :: (text ++ rest))
  | blockComment {text rest : List Char} :
      ¬['*', '/'] <:+: text ++ ['*'] → Skipped after rest →
      Skipped after ('/' :: '*' :: (text ++ '*' :: '/' :: rest))

/-- No token of any source begins with this character. -/
def BeginsNoToken (c : Char) : Prop :=
  ∀ source, ∀ t ∈ tokens source, t.lexeme.toList.head? ≠ some c

/-- `Spells line text after item`: the text, with `after` behind it, is this item,
which ends on the given line. -/
inductive Spells (line : Nat) : List Char → List Char → ScanItem → Prop
  | token {kind : Kind} {text after : List Char} : kind ≠ .eof →
      (∀ literal, kind = .string literal → text = inQuotes literal.toList) →
      Spells line text after (.token ⟨kind, .ofList text, line⟩)
  | unexpected {c : Char} {after : List Char} : BeginsNoToken c →
      Spells line [c] after (.error ⟨line, .unexpectedCharacter c⟩)
  | unterminatedString {inside : List Char} : '"' ∉ inside →
      Spells line ('"' :: inside) [] (.error ⟨line, .unterminatedString⟩)
  | unterminatedComment {inside : List Char} : ¬['*', '/'] <:+: inside →
      Spells line ('/' :: '*' :: inside) [] (.error ⟨line, .unterminatedComment⟩)

namespace Scan

variable {c : Char} {cs : List Char}

/-- The first span of `c :: cs`, by the rule that makes it. -/
inductive Made (c : Char) (cs : List Char) : Span → Prop
  | single {piece : Piece} : single? c = some piece → Made c cs ⟨piece, [c], cs⟩
  | operator (kinds : Kind × Kind) : Made c cs (operator c kinds cs)
  | slash : c = '/' → Made c cs (slash cs)
  | quote : c = '"' → Made c cs (quote cs)
  | number : Made c cs (number c cs)
  | word : Made c cs (word c cs)
  | unexpected : (∀ ds, span c ds = ⟨.error (.unexpectedCharacter c), [c], ds⟩) →
      Made c cs ⟨.error (.unexpectedCharacter c), [c], cs⟩

theorem made_span (c : Char) (cs : List Char) : Made c cs (span c cs) := by
  obtain ⟨piece, hsingle, hspan⟩ | ⟨kinds, -, hspan⟩ | ⟨hslash, hspan⟩ | ⟨hquote, hspan⟩ |
    ⟨-, hspan⟩ | ⟨-, hspan⟩ | hspan := span_cases c cs
  · exact hspan ▸ .single hsingle
  · exact hspan ▸ .operator kinds
  · exact hspan ▸ .slash hslash
  · exact hspan ▸ .quote hquote
  · exact hspan ▸ .number
  · exact hspan ▸ .word
  · exact hspan cs ▸ .unexpected hspan

theorem piece_operator (kinds : Kind × Kind) :
    ∃ kind, (operator c kinds cs).piece = .token kind := by
  unfold operator
  split <;> exact ⟨_, rfl⟩

theorem piece_number : ∃ kind, (number c cs).piece = .token kind := by
  unfold number
  dsimp only
  split
  · split <;> exact ⟨_, rfl⟩
  · exact ⟨_, rfl⟩

/-! ## Spans that are skipped -/

/-- A comment that does not end has no such mark. -/
theorem not_infix_of_splitComment? (h : splitComment? cs = none) : ¬['*', '/'] <:+: cs := by
  fun_induction splitComment? cs with
  | case1 => cases h
  | case2 c cs hne ih =>
    have hrest := ih (Option.map_eq_none_iff.1 h)
    rw [List.infix_cons_iff, not_or]
    refine ⟨fun hprefix => ?_, hrest⟩
    obtain ⟨hc, tail, htail⟩ := List.cons_prefix_cons.1 hprefix
    exact hne tail hc.symm htail.symm
  | case3 => decide

/-- A comment is skipped. -/
theorem skipped_slash {gap after : List Char} (hpiece : (slash cs).piece = .blank)
    (hrest : (slash cs).rest = gap ++ after) (h : Skipped after gap) :
    Skipped after ((slash cs).text ++ gap) := by
  unfold slash at hpiece hrest ⊢
  split at hpiece
  · rename_i cs
    refine .lineComment (fun hmem => ?_) ?_ h
    · have hne := List.mem_takeWhile_imp hmem
      simp at hne
    · intro c hc
      have hrest : cs.dropWhile (· != '\n') = gap ++ after := hrest
      rw [← hrest] at hc
      have hstop := List.head?_dropWhile_not (· != '\n') cs
      rw [Option.mem_def] at hc
      rw [hc] at hstop
      simpa using hstop
  · rename_i cs
    split at hpiece
    · rename_i text rest hsplit
      obtain ⟨inner, rfl, hinner⟩ := splitComment?_first hsplit
      have hcomment := Skipped.blockComment hinner h
      simpa [hsplit] using hcomment
    · cases hpiece
  · cases hpiece

/-- A blank span is skipped. -/
theorem skipped_span {gap after : List Char} (hpiece : (span c cs).piece = .blank)
    (hrest : (span c cs).rest = gap ++ after) (h : Skipped after gap) :
    Skipped after ((span c cs).text ++ gap) := by
  have hmade := made_span c cs
  generalize span c cs = s at hpiece hrest hmade
  cases hmade with
  | single hsingle =>
    obtain rfl : _ = Piece.blank := hpiece
    exact .blank (mem_blanks_of_single? hsingle nofun).2 h
  | operator kinds =>
    obtain ⟨kind, htoken⟩ := @piece_operator c cs kinds
    cases hpiece.symm.trans htoken
  | slash => exact skipped_slash hpiece hrest h
  | quote =>
    unfold quote at hpiece
    dsimp only at hpiece
    split at hpiece <;> cases hpiece
  | number =>
    obtain ⟨kind, htoken⟩ := @piece_number c cs
    cases hpiece.symm.trans htoken
  | word => cases hpiece
  | unexpected => cases hpiece

/-! ## Spans that are errors -/

/-- A token is the end marker or a span of the text. -/
theorem span_of_mem_scanFrom {t : Token} (line : Nat) (cs : List Char)
    (h : .token t ∈ scanFrom line cs) :
    t.lexeme = "" ∨ ∃ c ds, (span c ds).piece = .token t.kind ∧
      t.lexeme = .ofList (span c ds).text := by
  induction cs using spans_induction generalizing line with
  | nil =>
    rw [scanFrom] at h
    cases List.mem_singleton.1 h
    exact .inl rfl
  | span c cs ih =>
    rw [scanFrom_cons, List.mem_append, Option.mem_toList] at h
    obtain h | h := h
    · obtain ⟨kind, hpiece, rfl⟩ := Span.token_of_item? h
      exact .inr ⟨c, cs, hpiece, rfl⟩
    · exact ih _ h

/-- A character that is an error wherever it stands begins no token. -/
theorem beginsNoToken (h : ∀ ds, span c ds = ⟨.error (.unexpectedCharacter c), [c], ds⟩) :
    BeginsNoToken c := by
  intro source t ht hhead
  obtain ⟨item, hitem, htoken⟩ := List.mem_filterMap.1 ht
  obtain ⟨u⟩ | ⟨e⟩ := item
  · cases htoken
    obtain hempty | ⟨d, ds, hpiece, hlexeme⟩ := span_of_mem_scanFrom 1 source.toList (scan_eq source ▸ hitem)
    · rw [hempty] at hhead
      cases hhead
    · -- the text of a span begins with the character it was found at
      have happend := span_text_append_rest d ds
      obtain ⟨e, es, htext⟩ := List.exists_cons_of_ne_nil (span_text_ne_nil d ds)
      rw [hlexeme, String.toList_ofList, htext] at hhead
      rw [htext] at happend
      cases hhead
      obtain ⟨rfl, -⟩ := List.cons.inj happend
      rw [h] at hpiece
      cases hpiece
  · cases htoken

/-- An erroneous span is what its error says. -/
theorem spells_error {problem : LexicalProblem} (line : Nat)
    (h : (span c cs).piece = .error problem) :
    Spells line (span c cs).text (span c cs).rest (.error ⟨line, problem⟩) := by
  have hmade := made_span c cs
  generalize span c cs = s at h hmade
  cases hmade with
  | single hsingle =>
    obtain rfl : _ = Piece.error problem := h
    cases (mem_blanks_of_single? hsingle nofun).1
  | operator kinds =>
    obtain ⟨kind, htoken⟩ := @piece_operator c cs kinds
    cases h.symm.trans htoken
  | slash =>
    unfold slash at h ⊢
    split at h
    · cases h
    · rename_i cs
      split at h
      · cases h
      · rename_i hsplit
        cases h
        exact .unterminatedComment (not_infix_of_splitComment? hsplit)
    · cases h
  | quote =>
    unfold quote at h ⊢
    dsimp only at h ⊢
    split at h
    · cases h
    · cases h
      refine .unterminatedString fun hmem => ?_
      have hne := List.mem_takeWhile_imp hmem
      simp at hne
  | number =>
    obtain ⟨kind, htoken⟩ := @piece_number c cs
    cases h.symm.trans htoken
  | word => cases h
  | unexpected hspan =>
    cases h
    exact .unexpected (beginsNoToken hspan)

end Scan

/-- A span that is a token is spelled by its text. -/
theorem Scan.spells_token {c : Char} {cs : List Char} {kind : Kind} (line : Nat)
    (h : (span c cs).piece = .token kind) :
    Spells line (span c cs).text (span c cs).rest
      (.token ⟨kind, .ofList (span c cs).text, line⟩) := by
  have hgenuine : Token.Genuine ⟨kind, .ofList (span c cs).text, line⟩ := genuine_span h
  refine .token (fun heof => ?_) fun literal hliteral => ?_
  · have heof' := hgenuine.isEof
    simp [Token.isEof, heof] at heof'
  · exact String.ofList_injective (hgenuine.quoted literal hliteral).1

/-- The item of a span is spelled by its text. -/
theorem Scan.spells_item? {c : Char} {cs : List Char} {line : Nat} {item : ScanItem}
    (h : (span c cs).item? line = some item) :
    Spells line (span c cs).text (span c cs).rest item := by
  unfold Span.item? at h
  cases hpiece : (span c cs).piece with
  | blank => rw [hpiece] at h; cases h
  | token kind => rw [hpiece] at h; cases h; exact spells_token line hpiece
  | error problem => rw [hpiece] at h; cases h; exact spells_error line hpiece

theorem Span.blank_of_item? {s : Span} {line : Nat} (h : s.item? line = none) :
    s.piece = .blank := by
  unfold item? at h
  cases hpiece : s.piece with
  | blank => rfl
  | token kind => rw [hpiece] at h; cases h
  | error problem => rw [hpiece] at h; cases h

/-! ## Where the items are -/

/-- A stretch of the bytes of a source and the item on it. -/
structure Extent where
  start : String.Pos.Raw
  stop : String.Pos.Raw
  item : ScanItem

/-- The characters of a source between two positions. -/
def between (source : String) (start stop : String.Pos.Raw) : List Char :=
  (String.Pos.Raw.extract source start stop).toList

/-- `LaidOut source p extents`: from the position `p` on the source is these extents, one
after another, and what is skipped before each of them and behind the last one. -/
inductive LaidOut (source : String) : String.Pos.Raw → List Extent → Prop
  | done {p : String.Pos.Raw} : Skipped [] (between source p source.rawEndPos) → LaidOut source p []
  | next {p : String.Pos.Raw} {x : Extent} {extents : List Extent} :
      p ≤ x.start → x.start < x.stop → x.start.IsValid source → x.stop.IsValid source →
      Skipped (between source x.start source.rawEndPos) (between source p x.start) →
      Spells (1 + newlines (between source 0 x.stop)) (between source x.start x.stop)
        (between source x.stop source.rawEndPos) x.item →
      LaidOut source x.stop extents → LaidOut source p (x :: extents)

/-- Errors about what goes on to the end of the source. -/
def ScanItem.Unterminated (item : ScanItem) : Prop :=
  ∃ line, item = .error ⟨line, .unterminatedString⟩ ∨ item = .error ⟨line, .unterminatedComment⟩

/-- `Yields s extents t`: the scanner `s` gives out these items one after another, each
with its bytes between `start` and `curr`, and then is the scanner `t`. -/
inductive Scanner.Yields : Scanner → List Extent → Scanner → Prop
  | nil {s : Scanner} : Yields s [] s
  | next {s t u : Scanner} {item : ScanItem} {extents : List Extent} :
      s.next = .ok (some item) t → Yields t extents u →
      Yields s (⟨⟨t.start⟩, ⟨t.curr⟩, item⟩ :: extents) u

/-- The position behind these characters of a source. -/
def behind (cs : List Char) : String.Pos.Raw := ⟨String.utf8Len cs⟩

section
variable {source : String} {l m r : List Char}

theorem between_behind (h : source.toList = l ++ m ++ r) :
    between source (behind l) (behind (l ++ m)) = m := by
  obtain rfl : source = .ofList (l ++ m ++ r) := by rw [← h, String.ofList_toList]
  rw [between, behind, behind, String.utf8Len_append, String.extract_of_valid,
    String.toList_ofList]

theorem between_zero (h : source.toList = l ++ r) : between source 0 (behind l) = l :=
  between_behind (l := []) h

theorem rawEndPos_eq (source : String) : source.rawEndPos = behind source.toList := by
  rw [behind, ← String.rawEndPos_ofList, String.ofList_toList]

theorem between_end (h : source.toList = l ++ r) :
    between source (behind l) source.rawEndPos = r := by
  rw [rawEndPos_eq, h]
  exact between_behind (r := []) (by rw [h, List.append_nil])

theorem isValid_behind (h : source.toList = l ++ r) : (behind l).IsValid source :=
  Scanner.isValid_utf8Len h

/-- A place to cut a source is between two texts. -/
theorem exists_behind {p : String.Pos.Raw} (hp : p.IsValid source) :
    ∃ l r, source.toList = l ++ r ∧ p = behind l := by
  obtain ⟨before, after, rfl, rfl⟩ := String.Pos.Raw.isValid_iff_exists_append.1 hp
  exact ⟨before.toList, after.toList, String.toList_append, rawEndPos_eq before⟩

/-- A place to cut a source further on. -/
theorem exists_behind_append {p : String.Pos.Raw} (h : source.toList = l ++ r)
    (hp : p.IsValid source) (hle : behind l ≤ p) :
    ∃ m r', r = m ++ r' ∧ p = behind (l ++ m) := by
  obtain ⟨l', r', hcut, rfl⟩ := exists_behind hp
  obtain ⟨m, hl, hr⟩ | ⟨m, hl, hr⟩ := List.append_eq_append_iff.1 (h.symm.trans hcut)
  · exact ⟨m, r', hr, congrArg behind hl⟩
  · have hlen : String.utf8Len l ≤ String.utf8Len l' := hle
    rw [hl, String.utf8Len_append] at hlen
    obtain rfl : m = [] := String.utf8Len_eq_zero.1 (by omega)
    exact ⟨[], r, rfl, by rw [hl, List.append_nil, List.append_nil]⟩

/-- Behind a position there is some text, unless it is the end. -/
theorem eq_rawEndPos {p : String.Pos.Raw} (hp : p.IsValid source)
    (h : between source p source.rawEndPos = []) : p = source.rawEndPos := by
  obtain ⟨l, r, hcut, rfl⟩ := exists_behind hp
  rw [between_end hcut] at h
  rw [rawEndPos_eq, hcut, h, List.append_nil]

end

/-- Nothing lies behind the end of a source. -/
theorem LaidOut.nil_of_end {source : String} {extents : List Extent}
    (h : LaidOut source source.rawEndPos extents) : extents = [] := by
  cases h with
  | done _ => rfl
  | next hle hlt _ hvalid =>
    have hend := hvalid.le_rawEndPos
    rw [String.Pos.Raw.le_iff] at hle hend
    rw [String.Pos.Raw.lt_iff] at hlt
    omega

theorem Spells.nil_of_unterminated {line : Nat} {text after : List Char} {item : ScanItem}
    (h : Spells line text after item) (hunterminated : item.Unterminated) : after = [] := by
  obtain ⟨line, rfl | rfl⟩ := hunterminated <;> cases h <;> rfl

/-- What does not end goes on to the end of the source, and is the last extent. -/
theorem LaidOut.last_of_unterminated {source : String} {p : String.Pos.Raw}
    {extents : List Extent} (h : LaidOut source p extents) :
    ∀ x ∈ extents, x.item.Unterminated →
      x.stop = source.rawEndPos ∧ extents.getLast? = some x := by
  induction h with
  | done _ => nofun
  | @next p x extents _ _ _ hvalid _ hspells hextents ih =>
    intro y hy hunterminated
    obtain rfl | hy := List.mem_cons.1 hy
    · have hstop : y.stop = source.rawEndPos :=
        eq_rawEndPos hvalid (hspells.nil_of_unterminated hunterminated)
      rw [hstop] at hextents
      rw [hextents.nil_of_end]
      exact ⟨hstop, rfl⟩
    · obtain ⟨hstop, hlast⟩ := ih y hy hunterminated
      refine ⟨hstop, ?_⟩
      rw [List.getLast?_cons, hlast]
      rfl

/-! ## What a scanner yields -/

section

variable {source : String} {before : List Char} {c : Char} {cs : List Char}
  {extents : List Extent}

theorem source_append_span (h : source.toList = before ++ c :: cs) :
    source.toList = before ++ (Scan.span c cs).text ++ (Scan.span c cs).rest := by
  rw [h, List.append_assoc, Scan.span_text_append_rest]

/-- A blank span does not show in the layout. -/
theorem LaidOut.skip (h : LaidOut source (behind (before ++ (Scan.span c cs).text)) extents)
    (hsource : source.toList = before ++ c :: cs) (hpiece : (Scan.span c cs).piece = .blank) :
    LaidOut source (behind before) extents := by
  have hspan := source_append_span hsource
  cases h with
  | done hgap =>
    rw [between_end hspan] at hgap
    apply LaidOut.done
    rw [between_end hsource, ← Scan.span_text_append_rest c cs]
    exact Scan.skipped_span hpiece (List.append_nil _).symm hgap
  | @next _ x extents hle hlt hstart hstop hgap hspells hextents =>
    obtain ⟨gap, rest, hrest, hgapStart⟩ := exists_behind_append hspan hstart hle
    have hnext : source.toList = before ++ (Scan.span c cs).text ++ gap ++ rest := by
      rw [hspan, hrest, ← List.append_assoc]
    rw [hgapStart, between_end hnext, between_behind hnext] at hgap
    have hskipped := Scan.skipped_span hpiece hrest hgap
    rw [List.append_assoc before] at hnext hgapStart
    refine .next ?_ hlt hstart hstop ?_ hspells hextents
    · rw [hgapStart]
      simp [behind, String.Pos.Raw.le_iff]
    · rwa [hgapStart, between_end hnext, between_behind hnext]

/-- The first span of a text is its first item. -/
theorem LaidOut.take {item : ScanItem}
    (h : LaidOut source (behind (before ++ (Scan.span c cs).text)) extents)
    (hsource : source.toList = before ++ c :: cs)
    (hspells : Spells (1 + newlines (before ++ (Scan.span c cs).text)) (Scan.span c cs).text
      (Scan.span c cs).rest item) :
    LaidOut source (behind before)
      (⟨behind before, behind (before ++ (Scan.span c cs).text), item⟩ :: extents) := by
  have hspan := source_append_span hsource
  have hnone : between source (behind before) (behind before) = [] := by
    simpa using between_behind (m := []) ((List.append_nil before).symm ▸ hsource)
  refine .next ?_ ?_ (isValid_behind hsource) (isValid_behind hspan) ?_ ?_ h
  · exact Nat.le_refl (String.utf8Len before)
  · have hlen : String.utf8Len (Scan.span c cs).text ≠ 0 := fun hzero =>
      Scan.span_text_ne_nil c cs (String.utf8Len_eq_zero.1 hzero)
    simp only [behind, String.Pos.Raw.lt_iff, String.utf8Len_append]
    omega
  · rw [hnone]
    exact .nil
  · rwa [between_zero hspan, between_behind hspan, between_end hspan]

end

namespace Scanner

variable {s t last done : Scanner} {extents : List Extent} {item : ScanItem}

/-- What is yielded up to the end is what is given out. -/
theorem Yields.drain_eq (h : s.Yields extents last) (hlast : last.next = .ok (some item) done)
    (hdone : done.next = .ok none done) :
    s.drain = ⟨extents.map Extent.item ++ [item], false⟩ := by
  induction h with
  | nil => rw [drain_of_next hlast, drain_of_end hdone]; rfl
  | next hnext _ ih => rw [drain_of_next hnext, ih hlast]; rfl

/-- What is yielded only depends on the next item and what follows it. -/
theorem Yields.of_next_eq {result : EStateM.Result Fault Scanner (Option ScanItem)}
    (h : t.Yields extents last) (hnext : s.next = t.next) (hlast : last.next = result) :
    ∃ last', s.Yields extents last' ∧ last'.next = result := by
  cases h with
  | nil => exact ⟨s, .nil, hnext.trans hlast⟩
  | next htaken hrest => exact ⟨last, .next (hnext.trans htaken) hrest, hlast⟩

/-- A scanner in the middle of a source yields items that are laid out in front of it, and
behind them one end marker. -/
theorem Between.exists_yields {before cs : List Char} (h : s.Between before cs)
    (hline : s.line = 1 + newlines before) :
    ∃ extents last done, s.Yields extents last ∧
      last.next = .ok (some (.token ⟨.eof, "", 1 + newlines s.source.toList⟩)) done ∧
      done.next = .ok none done ∧ LaidOut s.source ⟨s.curr⟩ extents := by
  induction cs using Scan.spans_induction generalizing s before with
  | nil =>
    have hsource : s.source.toList = before := h.source.trans (List.append_nil before)
    have hlen : s.len = s.curr := h.len_eq
    have hlast := h.next_end
    rw [hline, ← hsource] at hlast
    refine ⟨[], s, _, .nil, hlast, next_after_end ?_, .done ?_⟩
    · exact Nat.lt_succ_of_le (Nat.le_of_eq hlen)
    · rw [h.curr]
      show Skipped [] (between s.source (behind before) s.source.rawEndPos)
      rw [between_end h.source]
      exact .nil
  | span c cs ih =>
    have hsource := h.source
    have hcurr := h.curr
    have hnext := h.next_eq
    rw [← Scan.span_text_append_rest c cs] at h
    have hbehind := Between.past h
    have hcount : s.line + newlines (Scan.span c cs).text =
        1 + newlines (before ++ (Scan.span c cs).text) := by
      rw [hline, newlines_append, Nat.add_assoc]
    cases hitem : (Scan.span c cs).item? (s.line + newlines (Scan.span c cs).text) with
    | none =>
      rw [hitem] at hnext
      obtain ⟨extents, last, done, hyields, hlast, hdone, hlaidOut⟩ :=
        ih (s := s.atItem.past (Scan.span c cs).text) ⟨hbehind.source, hbehind.curr⟩ hcount
      obtain ⟨last', hyields', hlast'⟩ := hyields.of_next_eq hnext hlast
      have hrest : LaidOut s.source (behind (before ++ (Scan.span c cs).text)) extents := by
        rw [behind, ← hbehind.curr]
        exact hlaidOut
      refine ⟨extents, last', done, hyields', hlast', hdone, ?_⟩
      rw [hcurr]
      exact hrest.skip hsource (Span.blank_of_item? hitem)
    | some item =>
      rw [hitem] at hnext
      obtain ⟨extents, last, done, hyields, hlast, hdone, hlaidOut⟩ :=
        ih (s := { s.atItem.past (Scan.span c cs).text with pending := none })
          ⟨hbehind.source, hbehind.curr⟩ hcount
      have hrest : LaidOut s.source (behind (before ++ (Scan.span c cs).text)) extents := by
        rw [behind, ← hbehind.curr]
        exact hlaidOut
      have htake := hrest.take hsource (Scan.spells_item? (hcount ▸ hitem))
      rw [behind, behind, ← hbehind.curr, ← hcurr] at htake
      exact ⟨_, last, done, .next hnext hyields, hlast, hdone, htake⟩

end Scanner

/-- The items of a source are laid out in it one after another, with nothing but blanks,
newlines and complete comments around them: the scanner stops behind each one, and between
`start` and `curr` is what it has given out. Behind them comes one end marker, and then nothing
any more. What does not end is the last item before it. No step panics. -/
theorem scan_laidOut (source : String) :
    ∃ extents last done, (Scanner.ofSource source).Yields extents last ∧
      last.next = .ok (some (.token ⟨.eof, "", 1 + newlines source.toList⟩)) done ∧
      done.next = .ok none done ∧
      (Scanner.ofSource source).drain =
        ⟨extents.map Extent.item ++ [.token ⟨.eof, "", 1 + newlines source.toList⟩], false⟩ ∧
      scan source = extents.map Extent.item ++
        [.token ⟨.eof, "", 1 + newlines source.toList⟩] ∧
      LaidOut source 0 extents ∧
      ∀ x ∈ extents, x.item.Unterminated →
        x.stop = source.rawEndPos ∧ extents.getLast? = some x := by
  obtain ⟨extents, last, done, hyields, hlast, hdone, hlaidOut⟩ :=
    (Scanner.between_ofSource source).exists_yields rfl
  have hdrain := hyields.drain_eq hlast hdone
  refine ⟨extents, last, done, hyields, hlast, hdone, hdrain, ?_, hlaidOut,
    hlaidOut.last_of_unterminated⟩
  rw [scan, hdrain]
  rfl

end Lox
