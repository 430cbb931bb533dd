import Lox.Proofs.Token.Bytes

/-
  Cursor — a scanner gives out the spans of its source

  What a step of a scanner does is said by the bytes ahead of its cursor
  (`Ahead`), and these are the bytes of the characters ahead. So each kind of item
  ends where its span ends: the cursor is between two characters again, on the line
  of the span, and what is cut out is the text of the span (`scanToken_eq`). From
  item to item this gives the items of all spans, with no panic (`drain_eq`).
-/

namespace Lox
namespace Scanner

/-! ## Bytes ahead -/

/-- The bytes of the source from a position on, each as a character. -/
structure Ahead (s : Scanner) (i : Nat) (l : List Char) : Prop where
  byte : ∀ k, (s.byte? (i + k)).map .ofUInt8 = l[k]?
  len : s.len = i + l.length

theorem len_eq (s : Scanner) : s.len = String.utf8Len s.source.toList := by
  rw [len, ← String.utf8ByteSize_ofList, String.ofList_toList]

theorem map_byte? (s : Scanner) (i : Nat) :
    (s.byte? i).map .ofUInt8 = (units s.source.toList)[i]? := by
  have hbytes : s.source.toByteArray = (s.source.toList.flatMap String.utf8EncodeChar).toByteArray :=
    String.utf8Encode_toList.symm
  have hlength : (s.source.toList.flatMap String.utf8EncodeChar).length = s.len := by
    rw [len_eq, ← length_units, units, List.length_map]
  rw [units, List.getElem?_map]
  congr 1
  unfold byte?
  split
  · rename_i h
    rw [List.getElem?_eq_getElem (hlength.symm ▸ h), String.getUTF8Byte_eq_getElem]
    simp only [hbytes, List.getElem_toByteArray]
  · rename_i h
    have hle : s.len ≤ i := Nat.le_of_not_lt h
    exact (List.getElem?_eq_none (hlength.symm ▸ hle)).symm

theorem ahead_of_source {s : Scanner} {before cs : List Char}
    (h : s.source.toList = before ++ cs) : s.Ahead (String.utf8Len before) (units cs) := by
  constructor
  · intro k
    rw [map_byte?, h, units_append, ← length_units before, List.getElem?_append_right (by omega),
      Nat.add_sub_cancel_left]
  · rw [len_eq, h, String.utf8Len_append, length_units]

variable {s : Scanner} {i : Nat} {c : Char} {l : List Char}

theorem Ahead.tail (h : s.Ahead i (c :: l)) : s.Ahead (i + 1) l := by
  constructor
  · intro k
    have hk := h.byte (k + 1)
    rwa [List.getElem?_cons_succ, show i + (k + 1) = i + 1 + k by omega] at hk
  · have hlen := h.len
    rw [List.length_cons] at hlen
    omega

theorem Ahead.head (h : s.Ahead i l) : (s.byte? i).map .ofUInt8 = l.head? := by
  rw [List.head?_eq_getElem?]
  exact h.byte 0

theorem getD_byte? (s : Scanner) (i : Nat) :
    Char.ofUInt8 ((s.byte? i).getD 0) = ((s.byte? i).map .ofUInt8).getD '\x00' := by
  cases s.byte? i <;> rfl

theorem Ahead.peek_eq (h : s.Ahead s.curr l) : s.peek = l.headD '\x00' := by
  rw [peek, getD_byte?, h.head]
  cases l <;> rfl

theorem Ahead.peekNext_eq (h : s.Ahead s.curr (c :: l)) : s.peekNext = l.headD '\x00' := by
  rw [peekNext, getD_byte?, h.tail.head]
  cases l <;> rfl

theorem Ahead.isAtEnd_eq (h : s.Ahead s.curr l) : s.isAtEnd = l.isEmpty := by
  have hlen := h.len
  unfold isAtEnd
  cases l with
  | nil => simp [hlen]
  | cons c l => simp [hlen]

theorem Ahead.advance_eq (h : s.Ahead s.curr (c :: l)) :
    advance s = .ok c { s with curr := s.curr + 1 } := by
  have hhead := h.head
  unfold advance
  cases hb : s.byte? s.curr with
  | none => rw [hb] at hhead; cases hhead
  | some b =>
    rw [hb] at hhead
    cases hhead
    rfl

/-- Taking a character if it comes next. -/
theorem Ahead.accept_eq (h : s.Ahead s.curr l) (a : Char) :
    accept a s =
      if l.head? = some a then .ok true { s with curr := s.curr + 1 } else .ok false s := by
  unfold accept
  rw [bind_eq]
  show (if !s.isAtEnd && s.peek == a then advance >>= fun _ => pure true
    else pure false : Scanning Bool) s = _
  rw [h.isAtEnd_eq, h.peek_eq]
  cases l with
  | nil => rfl
  | cons c l =>
    by_cases hc : c = a
    · simp only [hc, List.isEmpty_cons, Bool.not_false, List.headD_cons, BEq.rfl, Bool.and_self,
        if_true, List.head?_cons]
      rw [bind_eq, h.advance_eq]
      rfl
    · simp [hc]
      rfl

/-- Taking bytes takes the longest front of what is ahead in which the condition holds. -/
theorem Ahead.advanceWhile_eq {p : Scanner → Bool} {q : Char → Bool} (lines : Char → Nat)
    (hp : ∀ {t l}, t.Ahead t.curr l → p t = l.head?.any q) (h : s.Ahead s.curr l) :
    advanceWhile p lines s = .ok ()
      { s with
        curr := s.curr + (l.takeWhile q).length
        line := s.line + ((l.takeWhile q).map lines).sum } := by
  unfold advanceWhile
  induction l generalizing s with
  | nil =>
    rw [advanceWhile.loop, hp h]
    rfl
  | cons c l ih =>
    rw [advanceWhile.loop, hp h]
    cases hc : q c with
    | false => simp [hc]
    | true =>
      simp only [List.head?_cons, Option.any_some, hc, if_true]
      split
      · rename_i d t hd
        rw [h.advance_eq] at hd
        cases hd
        have htail : Ahead { s with curr := s.curr + 1, line := s.line + lines c } (s.curr + 1) l :=
          ⟨h.tail.byte, h.tail.len⟩
        rw [ih htail]
        simp only [List.takeWhile_cons_of_pos hc, List.length_cons, List.map_cons, List.sum_cons,
          Nat.add_assoc, Nat.add_comm 1]
      · rename_i e t he
        rw [h.advance_eq] at he
        cases he

theorem Ahead.digits_eq (h : s.Ahead s.curr l) :
    digits s = .ok () { s with curr := s.curr + (l.takeWhile Scan.isDigit).length } := by
  have hp {t : Scanner} {l : List Char} (ht : t.Ahead t.curr l) :
      Scan.isDigit t.peek = l.head?.any Scan.isDigit := by
    rw [ht.peek_eq]
    cases l <;> rfl
  rw [digits, h.advanceWhile_eq _ hp]
  simp

/-! ## Searching -/

theorem Ahead.isAt_eq (h : s.Ahead i l) (a : Char) : s.isAt a i = (l.head? == some a) := by
  rw [isAt, h.head]

/-- The next newline is behind everything that is none. -/
theorem Ahead.find?_newline (h : s.Ahead i l) :
    (s.find? (s.isAt '\n') i).getD s.len = i + (l.takeWhile (· != '\n')).length := by
  induction l generalizing i with
  | nil =>
    have hlen := h.len
    rw [find?, if_neg (by simp [hlen])]
    simpa using hlen
  | cons c l ih =>
    have hlen := h.len
    rw [find?, if_pos (by simp [hlen]), h.isAt_eq]
    by_cases hc : c = '\n'
    · simp [hc]
    · have htail := ih h.tail
      simp only [List.head?_cons, Option.some_beq_some, beq_iff_eq, hc, if_false, htail]
      rw [List.takeWhile_cons_of_pos (by simp [hc]), List.length_cons]
      omega

/-- The first end of a comment is where the text splits. -/
theorem Ahead.find?_mark (h : s.Ahead i l) :
    s.find? (fun i => s.isAt '*' i && s.isAt '/' (i + 1)) i =
      (Scan.splitComment? l).map fun (text, _) => i + (text.length - 2) := by
  fun_induction Scan.splitComment? l generalizing i with
  | case1 rest =>
    have hlen := h.len
    rw [find?, if_pos (by simp [hlen]), h.isAt_eq, h.tail.isAt_eq]
    rfl
  | case2 c rest hne ih =>
    have hlen := h.len
    have hmark : (s.isAt '*' i && s.isAt '/' (i + 1)) = false := by
      rw [h.isAt_eq, h.tail.isAt_eq]
      by_cases hc : c = '*'
      · cases rest with
        | nil => simp
        | cons d rest => simpa [hc] using fun hd => hne rest hc (by rw [hd])
      · simp [hc]
    rw [find?, if_pos (by simp [hlen]), hmark, if_neg Bool.false_ne_true, ih h.tail, Option.map_map]
    cases hsplit : Scan.splitComment? rest with
    | none => rfl
    | some split =>
      obtain ⟨text, behind⟩ := split
      obtain ⟨inner, htext, -⟩ := Scan.splitComment?_first hsplit
      simp [htext]
      omega
  | case3 =>
    have hlen := h.len
    rw [find?, if_neg (by simp [hlen])]
    rfl

/-- Newlines are counted on the bytes from one position to another. -/
theorem Ahead.newlinesBetween_eq (h : s.Ahead i l) (n : Nat) :
    s.newlinesBetween i (i + n) = (l.take n).countP (· == '\n') := by
  rw [newlinesBetween, Nat.add_sub_cancel_left]
  induction n generalizing i l with
  | zero => rfl
  | succ n ih =>
    rw [List.range'_succ, List.countP_cons]
    cases l with
    | nil =>
      have hnone : ∀ j, i ≤ j → s.isAt '\n' j = false := by
        intro j hj
        have hbyte := h.byte (j - i)
        rw [Nat.add_sub_cancel' hj] at hbyte
        rw [isAt, hbyte]
        rfl
      rw [hnone i (Nat.le_refl i), List.countP_eq_zero.2]
      · rfl
      · intro j hj
        simp [hnone j (by simp at hj; omega)]
    | cons c l =>
      rw [ih h.tail, h.isAt_eq, List.take_succ_cons, List.countP_cons]
      simp

/-! ## At an item -/

/-- A scanner behind a text before its item and behind what it has taken of the item, with
the rest of the source ahead. -/
structure At (s : Scanner) (before taken rest : List Char) : Prop where
  source : s.source.toList = before ++ (taken ++ rest)
  start : s.start = String.utf8Len before
  curr : s.curr = s.start + String.utf8Len taken

/-- The scanner behind a text that it takes, whose newlines it counts. -/
def past (s : Scanner) (text : List Char) : Scanner :=
  { s with curr := s.curr + String.utf8Len text, line := s.line + newlines text }

section At

variable {before taken text rest cs : List Char}

theorem past_past (s : Scanner) (text more : List Char) :
    (s.past text).past more = s.past (text ++ more) := by
  simp only [past, String.utf8Len_append, newlines_append, Nat.add_assoc]

theorem At.past (text : List Char) (h : s.At before taken (text ++ rest)) :
    (s.past text).At before (taken ++ text) rest := by
  refine ⟨?_, h.start, ?_⟩
  · show s.source.toList = _
    rw [h.source, List.append_assoc]
  · show s.curr + String.utf8Len text = s.start + _
    rw [h.curr, String.utf8Len_append, Nat.add_assoc]

theorem At.past_of_nil (text : List Char) (h : s.At before [] (text ++ rest)) :
    (s.past text).At before text rest := h.past text

theorem At.ahead (h : s.At before taken rest) : s.Ahead s.curr (units rest) := by
  have hahead := ahead_of_source ((h.source).trans (List.append_assoc before taken rest).symm)
  rwa [String.utf8Len_append, ← h.start, ← h.curr] at hahead

theorem At.isAtEnd_eq (h : s.At before taken rest) : s.isAtEnd = rest.isEmpty := by
  rw [h.ahead.isAtEnd_eq]
  cases rest with
  | nil => rfl
  | cons c rest =>
    obtain ⟨d, ds, hds⟩ := List.exists_cons_of_ne_nil (units_ne_nil c)
    rw [units_cons, hds]
    rfl

/-- Between two characters a source can be cut. -/
theorem isValid_utf8Len {source : String} {l r : List Char} (h : source.toList = l ++ r) :
    String.Pos.Raw.IsValid source ⟨String.utf8Len l⟩ := by
  rw [String.Pos.Raw.isValid_iff_exists_append]
  refine ⟨.ofList l, .ofList r, ?_, (String.rawEndPos_ofList l).symm⟩
  rw [← String.ofList_append, ← h, String.ofList_toList]

/-- Cutting out a text of the source. -/
theorem slice_eq {l m r : List Char} (h : s.source.toList = l ++ (m ++ r)) :
    slice (String.utf8Len l) (String.utf8Len l + String.utf8Len m) s = .ok (.ofList m) s := by
  have hstop := isValid_utf8Len (h.trans (List.append_assoc l m r).symm)
  rw [String.utf8Len_append] at hstop
  have hsource : s.source = .ofList (l ++ m ++ r) := by
    rw [List.append_assoc, ← h, String.ofList_toList]
  rw [slice, if_pos ⟨Nat.le_add_right _ _, isValid_utf8Len h, hstop⟩]
  congr 1
  rw [hsource]
  exact String.extract_of_valid l m r

theorem At.lexeme_eq (h : s.At before taken rest) : lexeme s = .ok (.ofList taken) s := by
  show slice s.start s.curr s = _
  rw [h.curr, h.start]
  exact slice_eq h.source

/-! ## Taking characters -/

theorem utf8Len_of_ascii (hc : c.toNat < 128) : String.utf8Len [c] = 1 := by
  rw [← length_units, units_of_ascii hc, List.length_singleton]

theorem past_of_ascii (hc : c.toNat < 128) (hline : c ≠ '\n') :
    s.past [c] = { s with curr := s.curr + 1 } := by
  rw [past, utf8Len_of_ascii hc]
  simp [newlines, hline]

/-- Taking a character of ASCII that does not end the line. -/
theorem At.advance_eq (h : s.At before taken (c :: rest)) (hc : c.toNat < 128) (hline : c ≠ '\n') :
    advance s = .ok c (s.past [c]) := by
  have hahead := h.ahead
  rw [units_cons, units_of_ascii hc] at hahead
  rw [hahead.advance_eq, past_of_ascii hc hline]

theorem At.accept_eq (h : s.At before taken rest) {a : Char} (ha : a.toNat < 128) (hline : a ≠ '\n') :
    accept a s = if rest.head? = some a then .ok true (s.past [a]) else .ok false s := by
  rw [h.ahead.accept_eq, past_of_ascii ha hline]
  simp only [head?_units ha]

theorem sum_lines {lines : Char → Nat} (h : ∀ c ∈ l, lines c = if c = '\n' then 1 else 0) :
    (l.map lines).sum = l.countP (· == '\n') := by
  induction l with
  | nil => rfl
  | cons c l ih =>
    rw [List.map_cons, List.sum_cons, h c List.mem_cons_self, List.countP_cons, Nat.add_comm,
      ih fun d hd => h d (List.mem_cons_of_mem c hd)]
    simp

/-- Taking characters takes the longest front of the rest in which a condition holds. -/
theorem At.advanceWhile_eq (p : Scanner → Bool) {q : Char → Bool} (lines : Char → Nat)
    (hq : AsciiOnly q) (hp : ∀ {t l}, t.Ahead t.curr l → p t = l.head?.any q)
    (hlines : ∀ c, q c = true → lines c = if c = '\n' then 1 else 0)
    (h : s.At before taken rest) :
    advanceWhile p lines s = .ok () (s.past (rest.takeWhile q)) := by
  have hsum : ((units (rest.takeWhile q)).map lines).sum = newlines (rest.takeWhile q) := by
    rw [← countP_units, ← takeWhile_units hq]
    exact sum_lines fun c hc => hlines c (List.mem_takeWhile_imp hc)
  rw [h.ahead.advanceWhile_eq lines hp, takeWhile_units hq, hsum, length_units]
  rfl

theorem At.digits_eq (h : s.At before taken rest) :
    digits s = .ok () (s.past (rest.takeWhile Scan.isDigit)) := by
  apply h.advanceWhile_eq _ _ Scan.asciiOnly_isDigit
  · intro t l ht
    rw [ht.peek_eq]
    cases l <;> rfl
  · intro c hc
    rw [if_neg]
    intro hline
    rw [hline] at hc
    cases hc

theorem At.skipLine_eq (h : s.At before taken rest) :
    skipLine s = .ok () (s.past (rest.takeWhile (· != '\n'))) := by
  have hnone : newlines (rest.takeWhile (· != '\n')) = 0 := by
    apply List.count_eq_zero.2
    intro hmem
    have hne := List.mem_takeWhile_imp hmem
    cases hne
  show EStateM.Result.ok () { s with curr := (s.find? (s.isAt '\n') s.curr).getD s.len } = _
  rw [h.ahead.find?_newline, takeWhile_units (asciiOnly_bne (by decide)), length_units,
    Scanner.past, hnone]
  rfl

/-- A comment is passed over with the mark that ends it. Without such a mark all the rest
is taken. -/
theorem At.skipBlockComment_eq (h : s.At before taken rest) :
    skipBlockComment s = match Scan.splitComment? rest with
      | some (text, _) => .ok () (s.past text)
      | none => .error (.lexical ⟨(s.past rest).line, .unterminatedComment⟩) (s.past rest) := by
  unfold skipBlockComment
  rw [h.ahead.find?_mark, Scan.splitComment?_units]
  cases hsplit : Scan.splitComment? rest with
  | none =>
    have hcount : s.newlinesBetween s.curr s.len = newlines rest := by
      rw [h.ahead.len, h.ahead.newlinesBetween_eq, List.take_length, countP_units]
    show fail .unterminatedComment
      { s with line := s.line + s.newlinesBetween s.curr s.len, curr := s.len } = _
    rw [hcount, h.ahead.len, length_units]
    rfl
  | some split =>
    obtain ⟨text, rest'⟩ := split
    obtain ⟨inner, htext, -⟩ := Scan.splitComment?_first hsplit
    have hunits : units text = units inner ++ ['*', '/'] := by
      rw [htext, units_append]
      rfl
    have hlength : (units text).length - 2 = (units inner).length := by simp [hunits]
    have hrest : units rest = units inner ++ (['*', '/'] ++ units rest') := by
      rw [← Scan.splitComment?_append hsplit, units_append, hunits, List.append_assoc]
    have hcount : s.newlinesBetween s.curr (s.curr + (units inner).length) = newlines text := by
      rw [h.ahead.newlinesBetween_eq, hrest, List.take_left, countP_units, htext, newlines_append]
      rfl
    show EStateM.Result.ok () { s with
      line := s.line + s.newlinesBetween s.curr (s.curr + ((units text).length - 2))
      curr := s.curr + ((units text).length - 2) + 2 } = _
    show _ = EStateM.Result.ok () (s.past text)
    rw [hlength, hcount, Nat.add_assoc, Scanner.past, ← length_units text, hunits,
      List.length_append]
    rfl

/-! ## Items -/

/-- How the step that scans a span ends. -/
def found (s : Scanner) (span : Span) : EStateM.Result Fault Scanner Unit :=
  let t := s.past span.text
  match span.piece with
  | .blank => .ok () t
  | .token kind => .ok () { t with pending := some kind }
  | .error problem => .error (.lexical ⟨t.line, problem⟩) t

/-- The first character of an item is taken. -/
theorem At.first (h : s.At before [] (c :: cs)) : (s.past [c]).At before [c] cs :=
  h.past_of_nil [c]

theorem head?_ne {a : Char} (h : ∀ tail, cs = a :: tail → False) : cs.head? ≠ some a := by
  intro hhead
  obtain ⟨tail, htail⟩ := List.head?_eq_some_iff.1 hhead
  exact h tail htail

theorem At.slash_eq (h : s.At before [] ('/' :: cs)) :
    slash (s.past ['/']) = s.found (Scan.slash cs) := by
  have haccept := h.first.accept_eq (a := '/') (by decide) (by decide)
  unfold Scan.slash
  split
  · rename_i cs
    have h' : ((s.past ['/']).past ['/']).At before ['/', '/'] cs := h.first.past ['/']
    rw [List.head?_cons, if_pos rfl] at haccept
    rw [slash, bind_eq, haccept]
    show skipLine _ = _
    rw [h'.skipLine_eq, past_past, past_past]
    rfl
  · rename_i cs
    have h' : ((s.past ['/']).past ['*']).At before ['/', '*'] cs := h.first.past ['*']
    rw [List.head?_cons, if_neg (by decide)] at haccept
    rw [slash, bind_eq, haccept]
    show (accept '*' >>= fun star => if star then skipBlockComment else recognise .slash) _ = _
    rw [bind_eq, h.first.accept_eq (by decide) (by decide), List.head?_cons, if_pos rfl]
    show skipBlockComment _ = _
    rw [h'.skipBlockComment_eq]
    cases hsplit : Scan.splitComment? cs with
    | none =>
      show EStateM.Result.error _ _ = EStateM.Result.error _ _
      rw [past_past, past_past]
      rfl
    | some split =>
      show EStateM.Result.ok _ _ = EStateM.Result.ok _ _
      rw [past_past, past_past]
      rfl
  · rename_i hslash hstar
    rw [if_neg (head?_ne hslash)] at haccept
    rw [slash, bind_eq, haccept]
    show (accept '*' >>= fun star => if star then skipBlockComment else recognise .slash) _ = _
    rw [bind_eq, h.first.accept_eq (by decide) (by decide), if_neg (head?_ne hstar)]
    rfl

theorem At.operator_eq (h : s.At before [] (c :: cs)) (kinds : Kind × Kind) :
    (accept '=' >>= fun equal => recognise (if equal then kinds.2 else kinds.1)) (s.past [c]) =
      s.found (Scan.operator c kinds cs) := by
  have haccept := h.first.accept_eq (a := '=') (by decide) (by decide)
  unfold Scan.operator
  split
  · rw [List.head?_cons, if_pos rfl, past_past] at haccept
    rw [bind_eq, haccept]
    rfl
  · rename_i hequal
    rw [if_neg (head?_ne hequal)] at haccept
    rw [bind_eq, haccept]
    rfl

theorem At.word_eq (h : s.At before [] (c :: cs)) : word (s.past [c]) = s.found (Scan.word c cs) := by
  have htake := h.first.advanceWhile_eq (fun s => Scan.isWordPart s.peek) (fun _ => 0)
    Scan.asciiOnly_isWordPart
    (fun ht => by rw [ht.peek_eq]; rename_i l; cases l <;> rfl)
    (fun d hd => by rw [if_neg]; rintro rfl; cases hd)
  have hat : ((s.past [c]).past (cs.takeWhile Scan.isWordPart)).At before
      ([c] ++ cs.takeWhile Scan.isWordPart) (cs.dropWhile Scan.isWordPart) := by
    apply At.past
    rw [List.takeWhile_append_dropWhile]
    exact h.first
  rw [word, bind_eq, htake]
  show (lexeme >>= fun text => recognise (.ofWord text)) _ = _
  rw [bind_eq, hat.lexeme_eq, past_past]
  rfl

/-- What stands between the quotes of a string literal. -/
theorem At.inside_eq (h : s.At before ('"' :: (text ++ ['"'])) rest) :
    slice (s.start + 1) (s.curr - 1) s = .ok (.ofList text) s := by
  have hsource : s.source.toList = before ++ ['"'] ++ (text ++ '"' :: rest) := by
    simpa using h.source
  have hquote : String.utf8Len ['"'] = 1 := utf8Len_of_ascii (by decide)
  have hcurr : s.curr - 1 = s.start + 1 + String.utf8Len text := by
    rw [h.curr, ← List.singleton_append, String.utf8Len_append, String.utf8Len_append, hquote]
    omega
  have hslice := slice_eq hsource
  rwa [String.utf8Len_append, hquote, ← h.start, ← hcurr] at hslice

theorem At.string_eq (h : s.At before [] ('"' :: cs)) :
    string (s.past ['"']) = s.found (Scan.quote cs) := by
  have htake := h.first.advanceWhile_eq (fun s => !s.isAtEnd && s.peek != '"')
    (fun c => if c = '\n' then 1 else 0) (asciiOnly_bne (a := '"') (by decide))
    (fun {t l} ht => by rw [ht.isAtEnd_eq, ht.peek_eq]; cases l <;> rfl) (fun c _ => rfl)
  have hat : (s.past ('"' :: cs.takeWhile (· != '"'))).At before
      ('"' :: cs.takeWhile (· != '"')) (cs.dropWhile (· != '"')) := by
    apply At.past_of_nil
    rw [List.cons_append, List.takeWhile_append_dropWhile]
    exact h
  rw [past_past, List.singleton_append] at htake
  rw [string, bind_eq, htake]
  unfold Scan.quote
  generalize cs.takeWhile (· != '"') = text at hat ⊢
  show (if (s.past ('"' :: text)).isAtEnd then fail .unterminatedString else
    advance >>= fun _ => get >>= fun s => slice (s.start + 1) (s.curr - 1) >>= fun text =>
      recognise (.string text)) _ = _
  cases hdrop : cs.dropWhile (· != '"') with
  | nil =>
    rw [hdrop] at hat
    rw [if_pos (by rw [hat.isAtEnd_eq]; rfl)]
    rfl
  | cons q rest =>
    obtain rfl : q = '"' := by
      have hstop := List.head?_dropWhile_not (· != '"') cs
      rw [hdrop] at hstop
      simpa using hstop
    rw [hdrop] at hat
    have hclosed : ((s.past ('"' :: text)).past ['"']).At before ('"' :: (text ++ ['"'])) rest :=
      hat.past ['"']
    rw [if_neg (by rw [hat.isAtEnd_eq]; exact Bool.false_ne_true), bind_eq,
      hat.advance_eq (by decide) (by decide)]
    generalize hs : (s.past ('"' :: text)).past ['"'] = t at hclosed ⊢
    show (slice (t.start + 1) (t.curr - 1) >>= fun text => recognise (.string text)) t = _
    rw [bind_eq, hclosed.inside_eq, ← hs, past_past]
    rfl

theorem isDigit_headD_units (cs : List Char) :
    Scan.isDigit ((units cs).headD '\x00') = cs.head?.any Scan.isDigit := by
  cases cs with
  | nil => rfl
  | cons c cs =>
    obtain ⟨d, ds, hds⟩ := List.exists_cons_of_ne_nil (units_ne_nil c)
    rw [units_cons, hds]
    exact Scan.asciiOnly_isDigit.eq_of_mem_units (c := c) (by simp [hds])

theorem At.fraction_eq (h : s.At before taken rest) :
    fraction s = .ok () (s.past (Scan.fractionOf rest)) := by
  have hahead := h.ahead
  show (if s.peek == '.' && Scan.isDigit s.peekNext then advance >>= fun _ => digits
    else pure () : Scanning Unit) s = _
  fun_cases Scan.fractionOf rest with
  | case1 d ds hd =>
    rw [units_cons, units_of_ascii (by decide), List.singleton_append] at hahead
    rw [hahead.peek_eq, hahead.peekNext_eq, isDigit_headD_units]
    simp only [List.headD_cons, List.head?_cons, Option.any_some, hd, BEq.rfl, Bool.and_self, if_true]
    rw [bind_eq, h.advance_eq (by decide) (by decide)]
    show digits _ = _
    rw [(h.past ['.']).digits_eq, past_past, List.takeWhile_cons_of_pos hd]
    rfl
  | case2 d ds hd =>
    rw [units_cons, units_of_ascii (by decide), List.singleton_append] at hahead
    rw [hahead.peek_eq, hahead.peekNext_eq, isDigit_headD_units]
    simp only [List.headD_cons, List.head?_cons, Option.any_some, hd, Bool.and_false,
      Bool.false_eq_true, if_false]
    rfl
  | case3 _ hpoint =>
    have hpeek : ¬(s.peek == '.' && Scan.isDigit s.peekNext) = true := by
      rw [Bool.and_eq_true, beq_iff_eq]
      intro ⟨hpeek, hdigit⟩
      cases rest with
      | nil =>
        rw [hahead.peek_eq] at hpeek
        exact absurd hpeek (by decide)
      | cons c rest =>
        have hhead : (units (c :: rest)).head? = some '.' := by
          obtain ⟨d, ds, hds⟩ := List.exists_cons_of_ne_nil (units_ne_nil c)
          rw [hahead.peek_eq, units_cons, hds] at hpeek
          rw [units_cons, hds]
          exact congrArg some hpeek
        obtain rfl : c = '.' := Option.some.inj ((head?_units (by decide) _).1 hhead)
        rw [units_cons, units_of_ascii (by decide), List.singleton_append] at hahead
        rw [hahead.peekNext_eq, isDigit_headD_units] at hdigit
        cases rest with
        | nil => cases hdigit
        | cons d ds => exact hpoint d ds rfl
    rw [if_neg hpeek]
    rfl

/-- The text of a number is read as its digits on both sides of the point. -/
theorem ofText_number (hc : Scan.isDigit c = true) (cs : List Char) :
    Number.ofText (.ofList (c :: cs.takeWhile Scan.isDigit ++
        Scan.fractionOf (cs.dropWhile Scan.isDigit))) =
      Number.ofDigits (c :: cs.takeWhile Scan.isDigit)
        (Scan.fractionOf (cs.dropWhile Scan.isDigit)).tail := by
  have hwhole : ∀ d ∈ c :: cs.takeWhile Scan.isDigit, (d != '.') = true := by
    intro d hd
    have hdigit : Scan.isDigit d = true := by
      obtain rfl | hd := List.mem_cons.1 hd
      · exact hc
      · exact List.mem_takeWhile_imp hd
    rw [bne_iff_ne]
    rintro rfl
    cases hdigit
  rw [Number.ofText, String.toList_ofList, List.takeWhile_append_of_pos hwhole,
    List.dropWhile_append_of_pos hwhole]
  -- the digits end at the point, if there is one
  fun_cases Scan.fractionOf (cs.dropWhile Scan.isDigit) <;> simp

theorem At.number_eq (h : s.At before [] (c :: cs)) (hc : Scan.isDigit c = true) :
    number (s.past [c]) = s.found (Scan.number c cs) := by
  obtain ⟨rest, hrest, hnumber⟩ := Scan.number_eq c cs
  have hat : (s.past (c :: cs.takeWhile Scan.isDigit)).At before (c :: cs.takeWhile Scan.isDigit)
      (cs.dropWhile Scan.isDigit) := by
    apply At.past_of_nil
    rw [List.cons_append, List.takeWhile_append_dropWhile]
    exact h
  have hall : ((s.past (c :: cs.takeWhile Scan.isDigit)).past
      (Scan.fractionOf (cs.dropWhile Scan.isDigit))).At before
      (c :: cs.takeWhile Scan.isDigit ++ Scan.fractionOf (cs.dropWhile Scan.isDigit)) rest := by
    apply At.past
    rw [← hrest]
    exact hat
  rw [number, bind_eq, h.first.digits_eq, past_past, List.singleton_append]
  show (fraction >>= fun _ => lexeme >>= fun text => recognise (.number (Number.ofText text))) _ = _
  rw [bind_eq, hat.fraction_eq]
  show (lexeme >>= fun text => recognise (.number (Number.ofText text))) _ = _
  rw [bind_eq, hall.lexeme_eq, past_past, hnumber]
  show recognise (.number (Number.ofText _)) _ = _
  rw [ofText_number hc]
  rfl

/-- A character that begins nothing is taken whole, however much of it was taken. -/
theorem At.unexpected_eq (h : s.At before [] (c :: cs)) (hline : c ≠ '\n') (k : Nat) :
    unexpected { s with curr := k } = s.found ⟨.error (.unexpectedCharacter c), [c], cs⟩ := by
  have hend : s.len = s.start + String.utf8Len (c :: cs) := by
    rw [len_eq, h.source, List.nil_append, String.utf8Len_append, h.start]
  have hsource : s.source.toList = before ++ (c :: cs ++ []) := by simpa using h.source
  have hslice := slice_eq (s := { s with curr := k }) hsource
  have hcurr : s.curr = s.start := h.curr
  show (slice s.start s.len >>= fun text =>
    set { s with curr := s.start + (text.toList.head?.getD '\ufffd').utf8Size } >>= fun _ =>
      fail (.unexpectedCharacter (text.toList.head?.getD '\ufffd'))) { s with curr := k } = _
  rw [← h.start, ← hend] at hslice
  rw [bind_eq, hslice]
  show EStateM.Result.error (Fault.lexical ⟨s.line, .unexpectedCharacter
      ((String.ofList (c :: cs)).toList.head?.getD '\ufffd')⟩)
    { s with curr := s.start + ((String.ofList (c :: cs)).toList.head?.getD '\ufffd').utf8Size } = _
  have hnone : newlines [c] = 0 := by simp [newlines, hline]
  rw [String.toList_ofList]
  show _ = EStateM.Result.error (Fault.lexical ⟨s.line + newlines [c], _⟩) (s.past [c])
  rw [Scanner.past, hnone, hcurr, String.utf8Len_cons, String.utf8Len_nil, Nat.zero_add]
  rfl

/-! ## Choosing the item -/

theorem ne_of_not_ascii {a : Char} (h : 128 ≤ c.toNat) (ha : a.toNat < 128) : c ≠ a := by
  rintro rfl
  omega

theorem punctuator?_of_not_ascii (h : 128 ≤ c.toNat) : Scan.punctuator? c = none := by
  unfold Scan.punctuator?
  split
  all_goals first | rfl | exact absurd h (by decide)

theorem operator?_of_not_ascii (h : 128 ≤ c.toNat) : Scan.operator? c = none := by
  unfold Scan.operator?
  split
  all_goals first | rfl | exact absurd h (by decide)

/-- Outside of ASCII no item begins. -/
theorem begins_of_not_ascii (h : 128 ≤ c.toNat) :
    Scan.isBlank c = false ∧ Scan.isDigit c = false ∧ Scan.isWordStart c = false ∧
      c ≠ '\n' ∧ c ≠ '/' ∧ c ≠ '"' := by
  refine ⟨?_, ?_, ?_, ne_of_not_ascii h (by decide), ne_of_not_ascii h (by decide),
    ne_of_not_ascii h (by decide)⟩
  · simp [Scan.isBlank, ne_of_not_ascii h]
  · exact Bool.eq_false_iff.2 fun hdigit => Nat.not_lt_of_le h (Scan.lt_of_isDigit hdigit)
  · exact Bool.eq_false_iff.2 fun hword => Nat.not_lt_of_le h (Scan.lt_of_isWordStart hword)

theorem dispatch_of_not_ascii (h : 128 ≤ c.toNat) : dispatch c = unexpected := by
  obtain ⟨hblank, hdigit, hword, hline, hslash, hquote⟩ := begins_of_not_ascii h
  simp [dispatch, punctuator?_of_not_ascii h, operator?_of_not_ascii h, hblank, hdigit, hword,
    hline, hslash, hquote]

theorem span_of_not_ascii (h : 128 ≤ c.toNat) (cs : List Char) :
    Scan.span c cs = ⟨.error (.unexpectedCharacter c), [c], cs⟩ := by
  obtain ⟨hblank, hdigit, hword, hline, hslash, hquote⟩ := begins_of_not_ascii h
  simp [Scan.span, Scan.single?, punctuator?_of_not_ascii h, operator?_of_not_ascii h, hblank,
    hdigit, hword, hline, hslash, hquote]

/-- An operator is no blank. -/
theorem not_blank_of_operator? {kinds : Kind × Kind} (h : Scan.operator? c = some kinds) :
    (Scan.isBlank c || c == '\n') = false := by
  unfold Scan.operator? at h
  split at h
  all_goals first | rfl | cases h

theorem At.dispatch_eq (h : s.At before [] (c :: cs)) (hc : c.toNat < 128) (hline : c ≠ '\n') :
    dispatch c (s.past [c]) = s.found (Scan.span c cs) := by
  unfold dispatch Scan.span Scan.single?
  cases hpunctuator : Scan.punctuator? c with
  | some kind => rfl
  | none =>
    dsimp only
    cases hoperator : Scan.operator? c with
    | some kinds =>
      rw [not_blank_of_operator? hoperator]
      exact h.operator_eq kinds
    | none =>
      have hline' : (c == '\n') = false := beq_eq_false_iff_ne.2 hline
      dsimp only
      rw [hline', Bool.or_false]
      cases hblank : Scan.isBlank c with
      | true => rfl
      | false =>
        simp only [Bool.false_eq_true, if_false]
        split
        · rename_i hslash
          obtain rfl := eq_of_beq hslash
          exact h.slash_eq
        · split
          · rename_i hquote
            obtain rfl := eq_of_beq hquote
            exact h.string_eq
          · split
            · rename_i hdigit
              exact h.number_eq hdigit
            · split
              · exact h.word_eq
              · rw [past_of_ascii hc hline]
                exact h.unexpected_eq hline _

/-- A scanner in front of a span scans that span. -/
theorem At.scanToken_eq (h : s.At before [] (c :: cs)) :
    scanToken s = s.found (Scan.span c cs) := by
  have hahead := h.ahead
  rw [scanToken, bind_eq]
  by_cases hc : c.toNat < 128
  · rw [units_cons, units_of_ascii hc] at hahead
    rw [hahead.advance_eq]
    by_cases hline : c = '\n'
    · rw [hline]
      rfl
    · rw [← past_of_ascii hc hline]
      exact h.dispatch_eq hc hline
  · have hc' : 128 ≤ c.toNat := Nat.le_of_not_lt hc
    obtain ⟨d, ds, hds⟩ := List.exists_cons_of_ne_nil (units_ne_nil c)
    have hd : 128 ≤ d.toNat := le_of_mem_units hc' (by simp [hds])
    rw [units_cons, hds, List.cons_append] at hahead
    rw [hahead.advance_eq, span_of_not_ascii hc']
    show dispatch d _ = _
    rw [dispatch_of_not_ascii hd]
    exact h.unexpected_eq (ne_of_not_ascii hc' (by decide)) _

/-! ## From item to item -/

/-- A scanner behind an item, between the text before it and the text ahead of it. -/
structure Between (s : Scanner) (before rest : List Char) : Prop where
  source : s.source.toList = before ++ rest
  curr : s.curr = String.utf8Len before

theorem between_ofSource (source : String) : (ofSource source).Between [] source.toList :=
  ⟨rfl, rfl⟩

theorem Between.atItem (h : s.Between before rest) : s.atItem.At before [] rest :=
  ⟨h.source, h.curr, rfl⟩

theorem Between.len_eq (h : s.Between before rest) : s.len = s.curr + String.utf8Len rest := by
  rw [Scanner.len_eq, h.source, String.utf8Len_append, h.curr]

theorem Between.past (h : s.Between before (text ++ rest)) :
    (s.past text).Between (before ++ text) rest := by
  constructor
  · show s.source.toList = _
    rw [h.source, List.append_assoc]
  · show s.curr + _ = _
    rw [h.curr, String.utf8Len_append]

/-- At the end of the source the end marker is given out. -/
theorem Between.next_end (h : s.Between before []) :
    s.next = .ok (some (.token ⟨.eof, "", s.line⟩)) { s with curr := s.curr + 1 } := by
  have hlen : s.len = s.curr := h.len_eq
  rw [next, if_neg (by omega), if_pos hlen]

/-- Behind the end marker nothing is given out. -/
theorem next_after_end (h : s.len < s.curr) : s.next = .ok none s := by
  rw [next, if_pos h]

/-- In front of the end an item is scanned. -/
theorem next_of_lt (h : s.curr < s.len) :
    s.next = match scanToken s.atItem with
      | .error .panic t => .error .panic t
      | .error (.lexical e) t => .ok (some (.error e)) t
      | .ok () t => t.pending.elim t.next fun kind => giveOut kind t := by
  rw [next, if_neg (Nat.lt_asymm h), if_neg (Nat.ne_of_gt h)]
  split
  · rename_i hscan
    rw [hscan]
  · rename_i hscan
    rw [hscan]
  · rename_i t hscan
    rw [hscan]
    dsimp only
    cases t.pending <;> rfl

theorem At.giveOut_eq (h : s.At before taken rest) (kind : Kind) :
    giveOut kind s =
      .ok (some (.token ⟨kind, .ofList taken, s.line⟩)) { s with pending := none } := by
  have htaken : At { s with pending := none } before taken rest := ⟨h.source, h.start, h.curr⟩
  show (lexeme >>= fun text => get >>= fun s => pure (some (.token ⟨kind, text, s.line⟩)) :
    Scanning (Option ScanItem)) { s with pending := none } = _
  rw [bind_eq, htaken.lexeme_eq]
  rfl

/-- In front of the end the next item is that of the next span, or of a later one if that
one is blank. -/
theorem Between.next_eq (h : s.Between before (c :: cs)) :
    s.next = match (Scan.span c cs).item? (s.line + newlines (Scan.span c cs).text) with
      | some item => .ok (some item) { s.atItem.past (Scan.span c cs).text with pending := none }
      | none => (s.atItem.past (Scan.span c cs).text).next := by
  have hlen := h.len_eq
  have hpos : 0 < String.utf8Len (c :: cs) := by
    rw [String.utf8Len_cons]
    exact Nat.add_pos_right _ (Char.utf8Size_pos c)
  have hat : (s.atItem.past (Scan.span c cs).text).At before (Scan.span c cs).text
      (Scan.span c cs).rest := by
    apply At.past_of_nil
    rw [Scan.span_text_append_rest]
    exact h.atItem
  rw [next_of_lt (by omega), h.atItem.scanToken_eq]
  unfold found Span.item?
  cases hpiece : (Scan.span c cs).piece with
  | blank => rfl
  | token kind =>
    -- the mark that it is a token does not move the scanner
    have hmarked : At { s.atItem.past (Scan.span c cs).text with pending := some kind } before
        (Scan.span c cs).text (Scan.span c cs).rest := ⟨hat.source, hat.start, hat.curr⟩
    exact hmarked.giveOut_eq kind
  | error problem => rfl

/-- What is given out is settled by the next item and what follows it. -/
theorem drain_eq_next (s : Scanner) :
    s.drain = match s.next with
      | .ok (some item) t => ⟨item :: t.drain.items, t.drain.panicked⟩
      | .ok none _ => ⟨[], false⟩
      | .error _ _ => ⟨[], true⟩ := by
  rw [drain]
  split
  · rename_i hnext
    rw [hnext]
  · rename_i hnext
    rw [hnext]
  · rename_i hnext
    rw [hnext]

theorem drain_of_next {item : ScanItem} {t : Scanner} (h : s.next = .ok (some item) t) :
    s.drain = ⟨item :: t.drain.items, t.drain.panicked⟩ := by
  rw [drain_eq_next, h]

theorem drain_of_end {t : Scanner} (h : s.next = .ok none t) : s.drain = ⟨[], false⟩ := by
  rw [drain_eq_next, h]

/-- A scanner gives out the items of the spans ahead, and does not panic. -/
theorem Between.drain_eq (h : s.Between before cs) : s.drain = ⟨scanFrom s.line cs, false⟩ := by
  induction cs using Scan.spans_induction generalizing s before with
  | nil =>
    have hlen : s.len = s.curr := h.len_eq
    have hdone : ({ s with curr := s.curr + 1 } : Scanner).next = .ok none { s with curr := s.curr + 1 } :=
      next_after_end (Nat.lt_succ_of_le (Nat.le_of_eq hlen))
    rw [drain_of_next h.next_end, drain_of_end hdone, scanFrom]
  | span c cs ih =>
    have hnext := h.next_eq
    rw [← Scan.span_text_append_rest c cs] at h
    have hbehind := Between.past h
    rw [scanFrom_cons]
    cases hitem : (Scan.span c cs).item? (s.line + newlines (Scan.span c cs).text) with
    | some item =>
      rw [hitem] at hnext
      have hrest := ih (s := { s.atItem.past (Scan.span c cs).text with pending := none })
        ⟨hbehind.source, hbehind.curr⟩
      rw [drain_of_next hnext, hrest]
      rfl
    | none =>
      rw [hitem] at hnext
      have hrest := ih (s := s.atItem.past (Scan.span c cs).text) ⟨hbehind.source, hbehind.curr⟩
      rw [drain_eq_next, hnext, ← drain_eq_next, hrest]
      rfl

end At

end Scanner

/-- Scanning a source gives out the items of its spans. -/
theorem scan_eq (source : String) : scan source = scanFrom 1 source.toList := by
  rw [scan, (Scanner.between_ofSource source).drain_eq]
  rfl

theorem tokens_eq (source : String) :
    tokens source = (scanFrom 1 source.toList).filterMap ScanItem.token? := by
  rw [tokens, scan_eq]

theorem lexicalErrors_eq (source : String) :
    lexicalErrors source = (scanFrom 1 source.toList).filterMap ScanItem.error? := by
  rw [lexicalErrors, scan_eq]

end Lox
