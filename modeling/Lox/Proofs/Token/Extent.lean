import Lox.Proofs.Token.Layout

/-
  Lines of a source

  Whatever is found in a source lies on one of its lines: a span moves the line
  down by its own newlines, so no item lies above the line where the text begins
  or below its last newline.
-/

namespace Lox

/-- A line of a source. Lines are counted from one, and every newline ends one. -/
def IsLineOf (source : String) (line : Nat) : Prop :=
  1 ≤ line ∧ line ≤ 1 + newlines source.toList

/-- The line of an item. -/
def ScanItem.line : ScanItem → Nat
  | .token t => t.line
  | .error e => e.line

theorem Span.line_of_item? {s : Span} {line : Nat} {item : ScanItem}
    (h : s.item? line = some item) : item.line = line := by
  rw [Span.item?] at h
  cases hpiece : s.piece with
  | blank =>
    rw [hpiece] at h
    cases h
  | token kind =>
    rw [hpiece] at h
    cases h
    rfl
  | error problem =>
    rw [hpiece] at h
    cases h
    rfl

/-- A span takes its newlines off those of the text. -/
theorem Scan.newlines_span (c : Char) (cs : List Char) :
    newlines (c :: cs) = newlines (span c cs).text + newlines (span c cs).rest := by
  rw [← newlines_append, span_text_append_rest]

/-- Items lie between the line where the text begins and the line where it ends. -/
theorem line_of_mem_scanFrom {item : ScanItem} (line : Nat) (cs : List Char)
    (h : item ∈ scanFrom line cs) : line ≤ item.line ∧ item.line ≤ line + newlines cs := by
  induction cs using Scan.spans_induction generalizing line with
  | nil =>
    rw [scanFrom] at h
    cases List.mem_singleton.1 h
    exact ⟨Nat.le_refl _, Nat.le_add_right _ _⟩
  | span c cs ih =>
    have hcount := Scan.newlines_span c cs
    rw [scanFrom_cons, List.mem_append, Option.mem_toList] at h
    obtain h | h := h
    · have hline := Span.line_of_item? h
      omega
    · have hrest := ih _ h
      omega

theorem isLineOf_of_mem_tokens {source : String} {t : Token} (h : t ∈ tokens source) :
    IsLineOf source t.line := by
  obtain ⟨item, hitem, htoken⟩ := List.mem_filterMap.1 h
  cases item with
  | token u =>
    cases htoken
    exact line_of_mem_scanFrom 1 source.toList (scan_eq source ▸ hitem)
  | error e => cases htoken

theorem isLineOf_of_mem_lexicalErrors {source : String} {e : LexicalError}
    (h : e ∈ lexicalErrors source) : IsLineOf source e.line := by
  obtain ⟨item, hitem, herror⟩ := List.mem_filterMap.1 h
  cases item with
  | token t => cases herror
  | error e' =>
    cases herror
    exact line_of_mem_scanFrom 1 source.toList (scan_eq source ▸ hitem)

end Lox
