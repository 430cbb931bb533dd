import Lox.Diagnostic

/-
  Scanner — a cursor over the bytes of a source

  A scanner keeps where the current item of the source begins, how far it is read
  and the line that the cursor has come to. Positions count bytes. A text can only
  be cut out between characters, and a byte only be taken before the end: a step
  that does otherwise panics. A step may also end with a lexical error, and then
  scanning can go on behind it.

  Scanning an item takes at least one byte of it (`within_of_scanToken`).
-/

namespace Lox
namespace Scan

/-- Decimal digits. -/
def isDigit (c : Char) : Bool := '0' ≤ c && c ≤ '9'

/-- Characters that begin an identifier: ASCII letters and the underscore. -/
def isWordStart (c : Char) : Bool := ('a' ≤ c && c ≤ 'z') || ('A' ≤ c && c ≤ 'Z') || c == '_'

/-- Characters of an identifier. -/
def isWordPart (c : Char) : Bool := isWordStart c || isDigit c

/-- Blanks within a line. -/
def isBlank (c : Char) : Bool := c == ' ' || c == '\r' || c == '\t'

/-- The token that a character is by itself, whatever follows it. -/
def punctuator? : Char → Option Kind
  | '(' => some .leftParen
  | ')' => some .rightParen
  | '\x7b' => some .leftBrace
  | '\x7d' => some .rightBrace
  | ',' => some .comma
  | '.' => some .dot
  | '-' => some .minus
  | '+' => some .plus
  | ';' => some .semicolon
  | '*' => some .star
  | '?' => some .question
  | ':' => some .colon
  | _ => none

/-- The operators of a character without and with an equals sign behind it. -/
def operator? : Char → Option (Kind × Kind)
  | '!' => some (.bang, .bangEqual)
  | '=' => some (.equal, .equalEqual)
  | '<' => some (.less, .lessEqual)
  | '>' => some (.greater, .greaterEqual)
  | _ => none

end Scan

/-- A scanner on its way through a source. -/
structure Scanner where
  source : String
  /-- Where the current item begins. -/
  start : Nat
  /-- Behind the last byte taken. -/
  curr : Nat
  line : Nat
  /-- What the current item is, if it is a token. -/
  pending : Option Kind

namespace Scanner

/-- Why a step of a scanner has no result. -/
inductive Fault where
  | lexical (e : LexicalError)
  | panic

/-- A step of a scanner. -/
abbrev Scanning := EStateM Fault Scanner

/-- A scanner in front of a source. -/
def ofSource (source : String) : Scanner := ⟨source, 0, 0, 1, none⟩

/-- The length of the source in bytes. -/
def len (s : Scanner) : Nat := s.source.utf8ByteSize

/-- The byte at a position of the source. -/
def byte? (s : Scanner) (i : Nat) : Option UInt8 :=
  if h : ⟨i⟩ < s.source.rawEndPos then some (s.source.getUTF8Byte ⟨i⟩ h) else none

def isAtEnd (s : Scanner) : Bool := s.len ≤ s.curr

/-- The next byte as a character, at the end the null character. A byte of a
character outside of ASCII is none of those that have a meaning. -/
def peek (s : Scanner) : Char := .ofUInt8 ((s.byte? s.curr).getD 0)

/-- The byte behind the next one. -/
def peekNext (s : Scanner) : Char := .ofUInt8 ((s.byte? (s.curr + 1)).getD 0)

/-- Takes the next byte. -/
def advance : Scanning Char := fun s =>
  match s.byte? s.curr with
  | some b => .ok (.ofUInt8 b) { s with curr := s.curr + 1 }
  | none => .error .panic s

/-- Takes the next byte if it is the given character. -/
def accept (c : Char) : Scanning Bool := do
  let s ← get
  if !s.isAtEnd && s.peek == c then
    let _ ← advance
    pure true
  else pure false

/-- Cuts out the text between two positions. -/
def slice (i j : Nat) : Scanning String := fun s =>
  if i ≤ j ∧ String.Pos.Raw.IsValid s.source ⟨i⟩ ∧ String.Pos.Raw.IsValid s.source ⟨j⟩ then
    .ok (String.Pos.Raw.extract s.source ⟨i⟩ ⟨j⟩) s
  else .error .panic s

/-- The text of the current item as far as it is read. -/
def lexeme : Scanning String := do
  let s ← get
  slice s.start s.curr

/-- Marks the current item as a token. -/
def recognise (kind : Kind) : Scanning Unit := modify fun s => { s with pending := some kind }

/-- Ends the current item with an error on the current line. -/
def fail (problem : LexicalProblem) : Scanning Unit := do
  throw (.lexical ⟨(← get).line, problem⟩)

/-- The first position from `i` on at which a condition holds. -/
def find? (s : Scanner) (p : Nat → Bool) (i : Nat) : Option Nat :=
  if i < s.len then if p i then some i else s.find? p (i + 1) else none
termination_by s.len - i

/-- Whether the byte at a position is the given character. -/
def isAt (s : Scanner) (c : Char) (i : Nat) : Bool := (s.byte? i).map .ofUInt8 == some c

/-- How many newlines there are between two positions. -/
def newlinesBetween (s : Scanner) (i j : Nat) : Nat := (List.range' i (j - i)).countP (s.isAt '\n')

/-- Goes on to the end of the line. The newline itself is left, so that it is
counted like any other. -/
def skipLine : Scanning Unit := modify fun s =>
  { s with curr := (s.find? (s.isAt '\n') s.curr).getD s.len }

/-- Goes on behind the first end of a comment. -/
def skipBlockComment : Scanning Unit := fun s =>
  match s.find? (fun i => s.isAt '*' i && s.isAt '/' (i + 1)) s.curr with
  | some i => .ok () { s with line := s.line + s.newlinesBetween s.curr i, curr := i + 2 }
  | none =>
    fail .unterminatedComment
      { s with line := s.line + s.newlinesBetween s.curr s.len, curr := s.len }

theorem curr_lt_of_advance {s t : Scanner} {c : Char} (h : advance s = .ok c t) :
    s.curr < s.len ∧ t = { s with curr := s.curr + 1 } := by
  simp only [advance, byte?] at h
  split at h
  · rename_i b hb
    split at hb
    · rename_i hlt
      cases h
      exact ⟨hlt, rfl⟩
    · cases hb
  · cases h

/-- Takes bytes as long as a condition holds, and counts lines on the way. -/
def advanceWhile (p : Scanner → Bool) (lines : Char → Nat) : Scanning Unit := fun s => loop s
where
  loop (s : Scanner) : EStateM.Result Fault Scanner Unit :=
    if p s then
      match _h : advance s with
      | .ok c t => loop { t with line := t.line + lines c }
      | .error e t => .error e t
    else .ok () s
  termination_by s.len - s.curr
  decreasing_by
    obtain ⟨hlt, rfl⟩ := curr_lt_of_advance _h
    show s.len - (s.curr + 1) < s.len - s.curr
    omega

/-- Takes digits. -/
def digits : Scanning Unit := advanceWhile (fun s => Scan.isDigit s.peek) fun _ => 0

/-- A string literal, whose opening quote is taken. It may go over lines. -/
def string : Scanning Unit := do
  advanceWhile (fun s => !s.isAtEnd && s.peek != '"') fun c => if c = '\n' then 1 else 0
  if (← get).isAtEnd then fail .unterminatedString
  else
    let _ ← advance
    let s ← get
    recognise (.string (← slice (s.start + 1) (s.curr - 1)))

/-- A point with digits. A point belongs to a number only if a digit follows. -/
def fraction : Scanning Unit := do
  let s ← get
  if s.peek == '.' && Scan.isDigit s.peekNext then
    let _ ← advance
    digits
  else pure ()

/-- A number, whose first digit is taken. -/
def number : Scanning Unit := do
  digits
  fraction
  recognise (.number (Number.ofText (← lexeme)))

/-- A word, whose first character is taken. -/
def word : Scanning Unit := do
  advanceWhile (fun s => Scan.isWordPart s.peek) fun _ => 0
  recognise (.ofWord (← lexeme))

/-- A comment or the slash by itself, once it is taken. -/
def slash : Scanning Unit := do
  if ← accept '/' then skipLine
  else if ← accept '*' then skipBlockComment
  else recognise .slash

/-- A character that begins no token. It is taken whole, not only its first byte. -/
def unexpected : Scanning Unit := do
  let s ← get
  let c := (← slice s.start s.len).toList.head?.getD '\ufffd'
  set { s with curr := s.start + c.utf8Size }
  fail (.unexpectedCharacter c)

/-- The item that begins with a byte already taken. -/
def dispatch (c : Char) : Scanning Unit := do
  match Scan.punctuator? c with
  | some kind => recognise kind
  | none =>
    match Scan.operator? c with
    | some (alone, withEqual) => recognise (if ← accept '=' then withEqual else alone)
    | none =>
      if Scan.isBlank c then pure ()
      else if c == '\n' then modify fun s => { s with line := s.line + 1 }
      else if c == '/' then slash
      else if c == '"' then string
      else if Scan.isDigit c then number
      else if Scan.isWordStart c then word
      else unexpected

/-- Scans a single item, which may be a blank or a comment. -/
def scanToken : Scanning Unit := do
  dispatch (← advance)

/-! ## Progress -/

/-- The scanner `t` is still at the item that `s` is at, behind its beginning. -/
structure Within (s t : Scanner) : Prop where
  source : t.source = s.source
  start : t.start = s.start
  lt : t.start < t.curr

/-- A step inside an item does not leave it, and does not go on behind the end of the
source unless it ends with a fault. -/
structure Stays {α : Type} (x : Scanning α) : Prop where
  ok : ∀ {s t : Scanner} {a : α}, s.start < s.curr → s.curr ≤ s.len → x s = .ok a t →
    s.Within t ∧ t.curr ≤ t.len
  error : ∀ {s t : Scanner} {e : Fault}, s.start < s.curr → s.curr ≤ s.len → x s = .error e t →
    s.Within t

section Stays

variable {α β : Type} {x : Scanning α} {f : α → Scanning β}

theorem Within.trans {s t u : Scanner} (h : s.Within t) (h' : t.Within u) : s.Within u :=
  ⟨h'.source.trans h.source, h'.start.trans h.start, h'.lt⟩

/-- How a step goes on behind another one. -/
theorem bind_eq (x : Scanning α) (f : α → Scanning β) (s : Scanner) :
    (x >>= f) s = match x s with
      | .ok a t => f a t
      | .error e t => .error e t := by
  show EStateM.bind x f s = _
  unfold EStateM.bind
  cases x s <;> rfl

theorem Stays.bind (hx : Stays x) (hf : ∀ a, Stays (f a)) : Stays (x >>= f) := by
  constructor
  · intro s t b hlt hle h
    rw [bind_eq] at h
    cases hr : x s with
    | error e u => rw [hr] at h; cases h
    | ok a u =>
      rw [hr] at h
      obtain ⟨hwithin, hend⟩ := hx.ok hlt hle hr
      obtain ⟨hwithin', hend'⟩ := (hf a).ok hwithin.lt hend h
      exact ⟨hwithin.trans hwithin', hend'⟩
  · intro s t e hlt hle h
    rw [bind_eq] at h
    cases hr : x s with
    | error e' u =>
      rw [hr] at h
      cases h
      exact hx.error hlt hle hr
    | ok a u =>
      rw [hr] at h
      obtain ⟨hwithin, hend⟩ := hx.ok hlt hle hr
      exact hwithin.trans ((hf a).error hwithin.lt hend h)

/-- A step that looks at the scanner and goes on as it finds it. -/
theorem stays_get {f : Scanner → Scanning β}
    (hok : ∀ {s t : Scanner} {b : β}, s.start < s.curr → s.curr ≤ s.len → f s s = .ok b t →
      s.Within t ∧ t.curr ≤ t.len)
    (herror : ∀ {s t : Scanner} {e : Fault}, s.start < s.curr → s.curr ≤ s.len →
      f s s = .error e t → s.Within t) : Stays (get >>= f) :=
  ⟨hok, herror⟩

theorem stays_ite {c : Prop} [Decidable c] {y : Scanning α} (hx : Stays x) (hy : Stays y) :
    Stays (if c then x else y) := by
  split
  · exact hx
  · exact hy

/-- A step that looks at the scanner only to choose how to go on. -/
theorem stays_look {f : Scanner → Scanning β} (hf : ∀ s, Stays (f s)) : Stays (get >>= f) :=
  stays_get (fun hlt hle h => (hf _).ok hlt hle h) fun hlt hle h => (hf _).error hlt hle h

/-- A step that does not move the cursor. -/
theorem stays_of_still (hok : ∀ {s t : Scanner} {a : α}, x s = .ok a t →
      t.source = s.source ∧ t.start = s.start ∧ t.curr = s.curr)
    (herror : ∀ {s t : Scanner} {e : Fault}, x s = .error e t → t = s) : Stays x := by
  constructor
  · intro s t a hlt hle h
    obtain ⟨hsource, hstart, hcurr⟩ := hok h
    refine ⟨⟨hsource, hstart, ?_⟩, ?_⟩
    · rw [hstart, hcurr]
      exact hlt
    · rw [len, hsource, hcurr]
      exact hle
  · intro s t e hlt _ h
    obtain rfl := herror h
    exact ⟨rfl, rfl, hlt⟩

theorem stays_pure (a : α) : Stays (pure a : Scanning α) :=
  stays_of_still (fun h => by cases h; exact ⟨rfl, rfl, rfl⟩) fun h => by cases h

theorem stays_recognise (kind : Kind) : Stays (recognise kind) :=
  stays_of_still (fun h => by cases h; exact ⟨rfl, rfl, rfl⟩) fun h => by cases h

theorem stays_fail (problem : LexicalProblem) : Stays (fail problem) :=
  stays_of_still (fun h => by cases h) fun h => by cases h; rfl

theorem stays_slice (i j : Nat) : Stays (slice i j) := by
  apply stays_of_still
  · intro s t a h
    unfold slice at h
    split at h
    · cases h
      exact ⟨rfl, rfl, rfl⟩
    · cases h
  · intro s t e h
    unfold slice at h
    split at h
    · cases h
    · cases h
      rfl

theorem stays_lexeme : Stays lexeme :=
  stays_get (stays_slice _ _).ok (stays_slice _ _).error

theorem stays_advance : Stays advance := by
  constructor
  · intro s t c hlt _ h
    obtain ⟨hend, rfl⟩ := curr_lt_of_advance h
    exact ⟨⟨rfl, rfl, Nat.lt_succ_of_lt hlt⟩, hend⟩
  · intro s t e hlt _ h
    unfold advance at h
    split at h
    · cases h
    · cases h
      exact ⟨rfl, rfl, hlt⟩

theorem stays_accept (c : Char) : Stays (accept c) :=
  stays_look fun _ => stays_ite (stays_advance.bind fun _ => stays_pure true) (stays_pure false)

theorem stays_advanceWhile (p : Scanner → Bool) (lines : Char → Nat) :
    Stays (advanceWhile p lines) := by
  constructor
  · intro s t a hlt hle h
    unfold advanceWhile at h
    fun_induction advanceWhile.loop p lines s with
    | case1 s hp c u hu ih =>
      obtain ⟨hwithin, hend⟩ := stays_advance.ok hlt hle hu
      obtain ⟨hwithin', hend'⟩ := ih hwithin.lt hend h
      exact ⟨hwithin.trans ⟨hwithin'.source, hwithin'.start, hwithin'.lt⟩, hend'⟩
    | case2 s hp e u hu => cases h
    | case3 s hp =>
      cases h
      exact ⟨⟨rfl, rfl, hlt⟩, hle⟩
  · intro s t e hlt hle h
    unfold advanceWhile at h
    fun_induction advanceWhile.loop p lines s with
    | case1 s hp c u hu ih =>
      obtain ⟨hwithin, hend⟩ := stays_advance.ok hlt hle hu
      have hwithin' := ih hwithin.lt hend h
      exact hwithin.trans ⟨hwithin'.source, hwithin'.start, hwithin'.lt⟩
    | case2 s hp e' u hu =>
      cases h
      exact stays_advance.error hlt hle hu
    | case3 s hp => cases h

theorem le_of_find? {s : Scanner} {p : Nat → Bool} {i j : Nat} (h : s.find? p i = some j) :
    i ≤ j ∧ j < s.len ∧ p j = true := by
  fun_induction find? s p i with
  | case1 i hi hp =>
    cases h
    exact ⟨Nat.le_refl _, hi, hp⟩
  | case2 i hi hp ih =>
    obtain ⟨hle, hlt, hj⟩ := ih h
    exact ⟨Nat.le_of_succ_le hle, hlt, hj⟩
  | case3 => cases h

theorem stays_skipLine : Stays skipLine := by
  constructor
  · intro s t a hlt hle h
    cases h
    dsimp only
    cases h : s.find? (s.isAt '\n') s.curr with
    | none => exact ⟨⟨rfl, rfl, Nat.lt_of_lt_of_le hlt hle⟩, Nat.le_refl _⟩
    | some i =>
      obtain ⟨hcurr, hend, -⟩ := le_of_find? h
      exact ⟨⟨rfl, rfl, Nat.lt_of_lt_of_le hlt hcurr⟩, Nat.le_of_lt hend⟩
  · intro s t e _ _ h
    cases h

theorem lt_of_isAt {s : Scanner} {c : Char} {i : Nat} (h : s.isAt c i = true) : i < s.len := by
  unfold isAt byte? at h
  split at h
  · assumption
  · cases h

theorem stays_skipBlockComment : Stays skipBlockComment := by
  constructor
  · intro s t a hlt hle h
    unfold skipBlockComment at h
    split at h
    · rename_i i hi
      cases h
      obtain ⟨hcurr, -, hmark⟩ := le_of_find? hi
      have hend := lt_of_isAt (Bool.and_eq_true_iff.1 hmark).2
      exact ⟨⟨rfl, rfl, by show s.start < i + 2; omega⟩, hend⟩
    · cases h
  · intro s t e hlt hle h
    unfold skipBlockComment at h
    split at h
    · cases h
    · cases h
      exact ⟨rfl, rfl, Nat.lt_of_lt_of_le hlt hle⟩

theorem stays_string : Stays string :=
  (stays_advanceWhile _ _).bind fun _ => stays_look fun _ =>
    stays_ite (stays_fail _) (stays_advance.bind fun _ => stays_look fun _ =>
      (stays_slice _ _).bind fun _ => stays_recognise _)

theorem stays_number : Stays number := by
  have hdigits : Stays digits := stays_advanceWhile _ _
  have hfraction : Stays fraction := stays_look fun _ =>
    stays_ite (stays_advance.bind fun _ => hdigits) (stays_pure ())
  exact hdigits.bind fun _ => hfraction.bind fun _ => stays_lexeme.bind fun _ => stays_recognise _

theorem stays_word : Stays word :=
  (stays_advanceWhile _ _).bind fun _ => stays_lexeme.bind fun _ => stays_recognise _

theorem stays_slash : Stays slash :=
  (stays_accept _).bind fun _ => stays_ite stays_skipLine
    ((stays_accept _).bind fun _ => stays_ite stays_skipBlockComment (stays_recognise _))

theorem stays_unexpected : Stays unexpected := by
  apply stays_get
  · intro s t a _ _ h
    rw [bind_eq] at h
    cases hr : slice s.start s.len s with
    | ok text u => rw [hr] at h; cases h
    | error e u => rw [hr] at h; cases h
  · intro s t e hlt hle h
    rw [bind_eq] at h
    cases hr : slice s.start s.len s with
    | ok text u =>
      rw [hr] at h
      cases h
      exact ⟨rfl, rfl, Nat.lt_add_of_pos_right (Char.utf8Size_pos _)⟩
    | error e u =>
      rw [hr] at h
      cases h
      exact (stays_slice _ _).error hlt hle hr

theorem stays_dispatch (c : Char) : Stays (dispatch c) := by
  unfold dispatch
  split
  · exact stays_recognise _
  · split
    · exact (stays_accept _).bind fun _ => stays_recognise _
    · exact stays_ite (stays_pure ()) (stays_ite
        (stays_of_still (fun h => by cases h; exact ⟨rfl, rfl, rfl⟩) fun h => by cases h)
        (stays_ite stays_slash (stays_ite stays_string (stays_ite stays_number
          (stays_ite stays_word stays_unexpected)))))

end Stays

/-- An item takes at least one byte. -/
theorem within_of_scanToken {s t : Scanner} (hs : s.start = s.curr)
    (h : scanToken s = .ok () t ∨ ∃ e, scanToken s = .error (.lexical e) t) : s.Within t := by
  unfold scanToken at h
  rw [bind_eq] at h
  cases hr : advance s with
  | error e u =>
    rw [hr] at h
    unfold advance at hr
    split at hr
    · cases hr
    · cases hr
      obtain h | ⟨e, h⟩ := h <;> cases h
  | ok c u =>
    obtain ⟨hend, hu⟩ := curr_lt_of_advance hr
    rw [hr] at h
    have hlt : u.start < u.curr := by
      rw [hu]
      exact Nat.lt_succ_of_le (Nat.le_of_eq hs)
    have hle : u.curr ≤ u.len := by
      rw [hu]
      exact hend
    have hwithin : u.Within t := by
      obtain h | ⟨e, h⟩ := h
      · exact ((stays_dispatch c).ok hlt hle h).1
      · exact (stays_dispatch c).error hlt hle h
    rw [hu] at hwithin
    exact ⟨hwithin.source, hwithin.start, hwithin.lt⟩

end Scanner
end Lox
