import Lox.Proofs.Token.Cursor

/-
  Lines — what scanning says about lines, and what it says without them

  The lines of a scan only depend on where the text begins: a text further down
  has the same items on lines further down. So tokens can be compared without
  their lines, and `plainScan` is scanning without lines.
-/

namespace Lox

/-- A token on another line. -/
def Token.mapLine (f : Nat → Nat) (t : Token) : Token := { t with line := f t.line }

/-- An item on another line. -/
def ScanItem.mapLine (f : Nat → Nat) : ScanItem → ScanItem
  | .token t => .token (t.mapLine f)
  | .error e => .error { e with line := f e.line }

/-- A token without its line. -/
def Token.unlined (t : Token) : Token := t.mapLine fun _ => 0

@[simp] theorem Token.mapLine_kind (f : Nat → Nat) (t : Token) : (t.mapLine f).kind = t.kind := rfl

@[simp] theorem Token.mapLine_lexeme (f : Nat → Nat) (t : Token) :
    (t.mapLine f).lexeme = t.lexeme := rfl

@[simp] theorem Token.unlined_kind (t : Token) : t.unlined.kind = t.kind := rfl

@[simp] theorem Token.unlined_lexeme (t : Token) : t.unlined.lexeme = t.lexeme := rfl

theorem Token.unlined_eq_iff {t u : Token} :
    t.unlined = u.unlined ↔ t.kind = u.kind ∧ t.lexeme = u.lexeme := by
  simp [unlined, mapLine]

theorem ScanItem.mapLine_mapLine (f g : Nat → Nat) (i : ScanItem) :
    (i.mapLine g).mapLine f = i.mapLine (f ∘ g) := by
  cases i <;> rfl

/-! ## Scanning further down -/

theorem Span.item?_add (s : Span) (line k : Nat) :
    s.item? (line + k) = (s.item? line).map (ScanItem.mapLine (· + k)) := by
  rw [item?, item?]
  cases s.piece <;> rfl

/-- A span that is scanned as a token is one. -/
theorem Span.token_of_item? {s : Span} {line : Nat} {t : Token}
    (h : s.item? line = some (.token t)) :
    ∃ kind, s.piece = .token kind ∧ t = ⟨kind, .ofList s.text, line⟩ := by
  rw [item?] at h
  split at h
  · cases h
  · rename_i kind hpiece
    cases h
    exact ⟨kind, hpiece, rfl⟩
  · cases h

/-- A text that begins `k` lines further down. -/
theorem scanFrom_add (line k : Nat) (cs : List Char) :
    scanFrom (line + k) cs = (scanFrom line cs).map (ScanItem.mapLine (· + k)) := by
  induction cs using Scan.spans_induction generalizing line with
  | nil => rw [scanFrom, scanFrom]; rfl
  | span c cs ih =>
    rw [scanFrom_cons, scanFrom_cons, List.map_append, Nat.add_right_comm line k,
      Span.item?_add, ih]
    cases (Scan.span c cs).item? (line + newlines (Scan.span c cs).text) <;> rfl

/-! ## Scanning without lines -/

/-- What is scanned, without lines. -/
def plainScan (cs : List Char) : List ScanItem := (scanFrom 0 cs).map (.mapLine fun _ => 0)

/-- Without lines it does not matter where a text begins. -/
theorem map_unlined_scanFrom (line : Nat) (cs : List Char) :
    (scanFrom line cs).map (.mapLine fun _ => 0) = plainScan cs := by
  rw [← Nat.zero_add line, scanFrom_add, List.map_map, plainScan]
  congr 1
  funext i
  exact i.mapLine_mapLine _ _

theorem plainScan_nil : plainScan [] = [.token ⟨.eof, "", 0⟩] := by
  rw [plainScan, scanFrom]
  rfl

theorem plainScan_cons (c : Char) (cs : List Char) :
    plainScan (c :: cs) = ((Scan.span c cs).item? 0).toList ++ plainScan (Scan.span c cs).rest := by
  rw [plainScan, scanFrom_cons, List.map_append, map_unlined_scanFrom, Nat.zero_add,
    ← Nat.zero_add (newlines _), Span.item?_add]
  congr 1
  rw [Span.item?]
  cases (Scan.span c cs).piece <;> rfl

/-- A text whose first span is a token. -/
theorem plainScan_of_token {c : Char} {cs text rest : List Char} {kind : Kind}
    (h : Scan.span c cs = ⟨.token kind, text, rest⟩) :
    plainScan (c :: cs) = .token ⟨kind, .ofList text, 0⟩ :: plainScan rest := by
  rw [plainScan_cons, h]
  rfl

/-- A text whose first span is a blank. -/
theorem plainScan_of_blank {c : Char} {cs text rest : List Char}
    (h : Scan.span c cs = ⟨.blank, text, rest⟩) : plainScan (c :: cs) = plainScan rest := by
  rw [plainScan_cons, h]
  rfl

/-! ## Tokens and errors on other lines -/

theorem filterMap_token?_mapLine (f : Nat → Nat) (items : List ScanItem) :
    (items.map (.mapLine f)).filterMap ScanItem.token? =
      (items.filterMap ScanItem.token?).map (.mapLine f) := by
  rw [List.filterMap_map, List.map_filterMap]
  congr 1
  funext i
  cases i <;> rfl

theorem filterMap_error?_mapLine (f : Nat → Nat) (items : List ScanItem) :
    (items.map (.mapLine f)).filterMap ScanItem.error? =
      (items.filterMap ScanItem.error?).map fun e => { e with line := f e.line } := by
  rw [List.filterMap_map, List.map_filterMap]
  congr 1
  funext i
  cases i <;> rfl

/-- The tokens of a source without their lines. -/
theorem map_unlined_tokens (source : String) :
    (tokens source).map Token.unlined = (plainScan source.toList).filterMap ScanItem.token? := by
  rw [tokens_eq, ← map_unlined_scanFrom 1, filterMap_token?_mapLine]
  rfl

theorem lexicalErrors_eq_nil_iff (source : String) :
    lexicalErrors source = [] ↔ (plainScan source.toList).filterMap ScanItem.error? = [] := by
  rw [lexicalErrors_eq, ← map_unlined_scanFrom 1, filterMap_error?_mapLine, List.map_eq_nil_iff]

end Lox
