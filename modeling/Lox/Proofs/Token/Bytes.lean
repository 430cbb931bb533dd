import Mathlib
import Lox.Proofs.Token.Span

/-
  Bytes — what a scanner sees of the characters ahead

  A scanner sees single bytes. A character of ASCII is one byte, which is the
  character itself, and all bytes of any other character are outside of ASCII. So
  to a test that treats all characters outside of ASCII alike, a text and its bytes
  look the same (`takeWhile_units`), and the marks that a scanner searches for are
  where they are in the text.
-/

namespace Lox

/-- The bytes of a text, each as a character of its own. -/
def units (cs : List Char) : List Char := (cs.flatMap String.utf8EncodeChar).map .ofUInt8

theorem units_nil : units [] = [] := rfl

theorem units_append (cs ds : List Char) : units (cs ++ ds) = units cs ++ units ds := by
  simp [units]

theorem units_cons (c : Char) (cs : List Char) : units (c :: cs) = units [c] ++ units cs :=
  units_append [c] cs

theorem length_units (cs : List Char) : (units cs).length = String.utf8Len cs := by
  induction cs with
  | nil => rfl
  | cons c cs ih =>
    rw [units_cons, List.length_append, ih, String.utf8Len_cons, Nat.add_comm]
    simp [units]

/-- A character of ASCII is its only byte. -/
theorem units_of_ascii {c : Char} (h : c.toNat < 128) : units [c] = [c] := by
  have hc : c.val.toNat ≤ 127 := Nat.le_of_lt_succ h
  simp only [units, List.flatMap_cons, List.flatMap_nil, List.append_nil, String.utf8EncodeChar,
    if_pos hc, List.map_cons, List.map_nil, List.cons.injEq, and_true]
  apply Char.ext
  apply UInt32.toNat_inj.1
  show (UInt8.ofNat c.val.toNat).toUInt32.toNat = c.val.toNat
  rw [UInt8.toNat_toUInt32, UInt8.toNat_ofNat']
  omega

/-- The bytes of any other character are outside of ASCII. -/
theorem le_of_mem_units {c d : Char} (h : 128 ≤ c.toNat) (hd : d ∈ units [c]) : 128 ≤ d.toNat := by
  have hc : ¬c.val.toNat ≤ 127 := Nat.not_le_of_lt h
  simp only [units, List.flatMap_cons, List.flatMap_nil, List.append_nil, String.utf8EncodeChar,
    if_neg hc] at hd
  obtain ⟨b, hb, rfl⟩ := List.mem_map.1 hd
  have hbyte : 128 ≤ b.toNat := by
    split at hb
    · simp only [List.mem_cons, List.not_mem_nil, or_false] at hb
      obtain rfl | rfl := hb <;> (rw [UInt8.toNat_ofNat']; omega)
    · split at hb
      · simp only [List.mem_cons, List.not_mem_nil, or_false] at hb
        obtain rfl | rfl | rfl := hb <;> (rw [UInt8.toNat_ofNat']; omega)
      · simp only [List.mem_cons, List.not_mem_nil, or_false] at hb
        obtain rfl | rfl | rfl | rfl := hb <;> (rw [UInt8.toNat_ofNat']; omega)
  show 128 ≤ b.toUInt32.toNat
  rwa [UInt8.toNat_toUInt32]

theorem units_ne_nil (c : Char) : units [c] ≠ [] := by
  simp [units, String.utf8EncodeChar_ne_nil]

/-! ## Tests that see bytes as they see characters -/

/-- A test that treats all characters outside of ASCII alike. -/
def AsciiOnly (p : Char → Bool) : Prop := ∀ c d : Char, 128 ≤ c.toNat → 128 ≤ d.toNat → p c = p d

theorem AsciiOnly.eq_of_mem_units {p : Char → Bool} (hp : AsciiOnly p) {c d : Char}
    (hd : d ∈ units [c]) : p d = p c := by
  by_cases hc : c.toNat < 128
  · rw [units_of_ascii hc, List.mem_singleton] at hd
    rw [hd]
  · have hc' : 128 ≤ c.toNat := Nat.le_of_not_lt hc
    exact hp d c (le_of_mem_units hc' hd) hc'

theorem takeWhile_units {p : Char → Bool} (hp : AsciiOnly p) (cs : List Char) :
    (units cs).takeWhile p = units (cs.takeWhile p) := by
  induction cs with
  | nil => rfl
  | cons c cs ih =>
    have hunits : ∀ d ∈ units [c], p d = p c := fun d hd => hp.eq_of_mem_units hd
    rw [units_cons]
    cases hc : p c with
    | true =>
      rw [List.takeWhile_append_of_pos fun d hd => (hunits d hd).trans hc, ih,
        List.takeWhile_cons_of_pos hc, units_cons c (cs.takeWhile p)]
    | false =>
      rw [List.takeWhile_cons_of_neg (by simp [hc]), units_nil]
      obtain ⟨d, ds, hds⟩ := List.exists_cons_of_ne_nil (units_ne_nil c)
      have hd : p d = false := (hunits d (by simp [hds])).trans hc
      rw [hds, List.cons_append, List.takeWhile_cons_of_neg (by simp [hd])]

theorem asciiOnly_of_lt {p : Char → Bool} (h : ∀ c, p c = true → c.toNat < 128) : AsciiOnly p := by
  have hfalse : ∀ c : Char, 128 ≤ c.toNat → p c = false := by
    intro c hc
    cases hp : p c with
    | false => rfl
    | true => exact absurd (h c hp) (Nat.not_lt_of_le hc)
  intro c d hc hd
  rw [hfalse c hc, hfalse d hd]

theorem AsciiOnly.not {p : Char → Bool} (h : AsciiOnly p) : AsciiOnly fun c => !p c :=
  fun c d hc hd => congrArg Bool.not (h c d hc hd)

theorem asciiOnly_beq {a : Char} (ha : a.toNat < 128) : AsciiOnly (· == a) :=
  asciiOnly_of_lt fun c hc => by rwa [eq_of_beq hc]

theorem asciiOnly_bne {a : Char} (ha : a.toNat < 128) : AsciiOnly (· != a) := (asciiOnly_beq ha).not

namespace Scan

theorem lt_of_isDigit {c : Char} (h : isDigit c = true) : c.toNat < 128 := by
  simp only [isDigit, Bool.and_eq_true, decide_eq_true_eq] at h
  have hle : c.toNat ≤ '9'.toNat := h.2
  exact Nat.lt_of_le_of_lt hle (by decide)

theorem lt_of_isWordStart {c : Char} (h : isWordStart c = true) : c.toNat < 128 := by
  simp only [isWordStart, Bool.or_eq_true, Bool.and_eq_true, decide_eq_true_eq, beq_iff_eq] at h
  obtain (⟨-, hle⟩ | ⟨-, hle⟩) | rfl := h
  · exact Nat.lt_of_le_of_lt (show c.toNat ≤ 'z'.toNat from hle) (by decide)
  · exact Nat.lt_of_le_of_lt (show c.toNat ≤ 'Z'.toNat from hle) (by decide)
  · decide

theorem asciiOnly_isDigit : AsciiOnly isDigit := asciiOnly_of_lt fun _ => lt_of_isDigit

theorem asciiOnly_isWordPart : AsciiOnly isWordPart := by
  apply asciiOnly_of_lt
  intro c hc
  obtain hc | hc := Bool.or_eq_true_iff.1 hc
  · exact lt_of_isWordStart hc
  · exact lt_of_isDigit hc

end Scan

/-! ## What is ahead in a text and in its bytes -/

/-- A newline is a newline among the bytes, and no other byte is one. -/
theorem countP_units (cs : List Char) : (units cs).countP (· == '\n') = newlines cs := by
  induction cs with
  | nil => rfl
  | cons c cs ih =>
    have hc : (units [c]).countP (· == '\n') = if c == '\n' then 1 else 0 := by
      have hunits : ∀ d ∈ units [c], (d == '\n') = (c == '\n') := fun d hd =>
        (asciiOnly_beq (a := '\n') (by decide)).eq_of_mem_units hd
      split
      · rename_i hline
        obtain rfl := eq_of_beq hline
        rfl
      · rename_i hline
        apply List.countP_eq_zero.2
        intro d hd
        rwa [hunits d hd]
    rw [units_cons, List.countP_append, ih, hc, newlines, newlines, List.count_cons, Nat.add_comm]

/-- Whether a mark of ASCII comes next is seen at the next byte. -/
theorem head?_units {a : Char} (ha : a.toNat < 128) (cs : List Char) :
    (units cs).head? = some a ↔ cs.head? = some a := by
  cases cs with
  | nil => rfl
  | cons c cs =>
    obtain ⟨d, ds, hds⟩ := List.exists_cons_of_ne_nil (units_ne_nil c)
    have hd : (d == a) = (c == a) := (asciiOnly_beq ha).eq_of_mem_units (by simp [hds])
    rw [units_cons, hds, List.cons_append, List.head?_cons, List.head?_cons, Option.some.injEq,
      Option.some.injEq, ← beq_iff_eq, hd, beq_iff_eq]

namespace Scan

/-- Without a star there is no end of a comment. -/
theorem splitComment?_skip {front : List Char} (h : '*' ∉ front) (cs : List Char) :
    splitComment? (front ++ cs) =
      (splitComment? cs).map fun (text, rest) => (front ++ text, rest) := by
  induction front with
  | nil => cases hcs : splitComment? cs <;> simp [hcs]
  | cons c front ih =>
    rw [List.mem_cons, not_or] at h
    rw [List.cons_append, splitComment?, ih h.2, Option.map_map]
    · rfl
    · intro rest hc
      exact absurd hc.symm h.1

/-- The end of a comment is found where it is. -/
theorem splitComment?_units (cs : List Char) :
    splitComment? (units cs) =
      (splitComment? cs).map fun (text, rest) => (units text, units rest) := by
  fun_induction splitComment? cs with
  | case1 rest => rfl
  | case2 c rest hne ih =>
    rw [Option.map_map]
    by_cases hc : c = '*'
    · -- no slash comes next, and so none comes next among the bytes
      have hslash : (units rest).head? ≠ some '/' := by
        intro hhead
        obtain ⟨tail, htail⟩ := List.head?_eq_some_iff.1 ((head?_units (by decide) rest).1 hhead)
        exact hne tail hc htail
      rw [units_cons, hc, units_of_ascii (by decide), List.singleton_append, splitComment?, ih,
        Option.map_map]
      · rfl
      · intro tail _ htail
        exact hslash (by rw [htail]; rfl)
    · have hstar : '*' ∉ units [c] := by
        intro hmem
        have hsame : ('*' == '*') = (c == '*') :=
          (asciiOnly_beq (a := '*') (by decide)).eq_of_mem_units hmem
        exact hc (eq_of_beq hsame.symm)
      rw [units_cons, splitComment?_skip hstar, ih, Option.map_map]
      congr 1
      funext ⟨text, rest'⟩
      simp [units_cons c text]
  | case3 => rfl

end Scan
end Lox
