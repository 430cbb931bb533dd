import Lox.Token.Scanner

/-
  Scanning — a source text as a sequence of tokens and lexical errors

  A call of `next` skips blanks and comments and gives out one item, at the end
  of the source one end marker, and after that nothing any more. A source is
  scanned by calling it until nothing comes.
-/

namespace Lox

/-- An item of a scanned source. -/
inductive ScanItem where
  | token (t : Token)
  | error (e : LexicalError)

namespace Scanner

/-- Gives out the current item as a token. -/
def giveOut (kind : Kind) : Scanning (Option ScanItem) := do
  modify fun s => { s with pending := none }
  let text ← lexeme
  return some (.token ⟨kind, text, (← get).line⟩)

/-- The scanner in front of its next item. -/
def atItem (s : Scanner) : Scanner := { s with start := s.curr, pending := none }

theorem Within.progress {s t : Scanner} (h : s.atItem.Within t) :
    t.len = s.len ∧ s.curr < t.curr := by
  have hstart : t.start = s.curr := h.start
  exact ⟨congrArg String.utf8ByteSize h.source, hstart ▸ h.lt⟩

/-- Gives out the next item, if there is one. -/
def next (s : Scanner) : EStateM.Result Fault Scanner (Option ScanItem) :=
  if s.len < s.curr then .ok none s
  else if s.len = s.curr then
    .ok (some (.token ⟨.eof, "", s.line⟩)) { s with curr := s.curr + 1 }
  else
    match _h : scanToken s.atItem with
    | .error .panic t => .error .panic t
    | .error (.lexical e) t => .ok (some (.error e)) t
    | .ok () t =>
      match t.pending with
      | some kind => giveOut kind t
      | none => t.next
termination_by s.len - s.curr
decreasing_by
  obtain ⟨hlen, hlt⟩ := (within_of_scanToken rfl (.inl _h)).progress
  rw [hlen]
  omega

/-- Giving out an item does not move the cursor. -/
theorem giveOut_still {kind : Kind} {s t : Scanner} {item? : Option ScanItem}
    (h : giveOut kind s = .ok item? t) : t = { s with pending := none } := by
  unfold giveOut at h
  rw [bind_eq] at h
  change (lexeme >>= fun text => _) { s with pending := none } = _ at h
  rw [bind_eq] at h
  cases hr : lexeme { s with pending := none } with
  | error e u =>
    rw [hr] at h
    cases h
  | ok text u =>
    rw [hr] at h
    change slice s.start s.curr { s with pending := none } = _ at hr
    unfold slice at hr
    split at hr
    · cases hr
      cases h
      rfl
    · cases hr

/-- An item is given out only in front of the end, and then the cursor is further on. -/
theorem progress_of_next {s t : Scanner} {item : ScanItem} (h : s.next = .ok (some item) t) :
    s.curr ≤ s.len ∧ t.len = s.len ∧ s.curr < t.curr := by
  fun_induction next s with
  | case1 s hlt => cases h
  | case2 s hlt heq =>
    cases h
    exact ⟨Nat.le_of_eq heq.symm, rfl, Nat.lt_succ_self _⟩
  | case3 => cases h
  | case4 s hlt hne e u hscan =>
    cases h
    exact ⟨Nat.le_of_not_lt hlt, (within_of_scanToken rfl (.inr ⟨_, hscan⟩)).progress⟩
  | case5 s hlt hne u hscan kind hpending =>
    obtain ⟨hlen, hcurr⟩ := (within_of_scanToken rfl (.inl hscan)).progress
    obtain rfl := giveOut_still h
    exact ⟨Nat.le_of_not_lt hlt, hlen, hcurr⟩
  | case6 s hlt hne u hscan hpending ih =>
    obtain ⟨hle, hlen, hcurr⟩ := ih h
    obtain ⟨hlen', hcurr'⟩ := (within_of_scanToken rfl (.inl hscan)).progress
    exact ⟨Nat.le_of_not_lt hlt, hlen.trans hlen', Nat.lt_trans hcurr' hcurr⟩

/-- What comes out of a scanner. -/
structure Drained where
  items : List ScanItem
  /-- Whether the scanner panicked, and so gave out no more. -/
  panicked : Bool

/-- Calls `next` until nothing is given out any more. -/
def drain (s : Scanner) : Drained :=
  match _h : s.next with
  | .ok (some item) t =>
    let rest := t.drain
    { rest with items := item :: rest.items }
  | .ok none _ => ⟨[], false⟩
  | .error _ _ => ⟨[], true⟩
termination_by s.len + 1 - s.curr
decreasing_by
  all_goals
    obtain ⟨hle, hlen, hlt⟩ := progress_of_next _h
    rw [hlen]
    omega

end Scanner

/-- The tokens and lexical errors of a source text, in order. -/
def scan (source : String) : List ScanItem := (Scanner.ofSource source).drain.items

/-- The token of an item. -/
def ScanItem.token? : ScanItem → Option Token
  | .token t => some t
  | .error _ => none

/-- The error of an item. -/
def ScanItem.error? : ScanItem → Option LexicalError
  | .token _ => none
  | .error e => some e

/-- The tokens of a source text. -/
def tokens (source : String) : List Token := (scan source).filterMap ScanItem.token?

/-- The lexical errors of a source text. -/
def lexicalErrors (source : String) : List LexicalError :=
  (scan source).filterMap ScanItem.error?

end Lox
