import Mathlib
import Lox.Sink
import Lox.Proofs.Token.Span

/-
  Sinks that fill up

  A sink with room for some newlines takes a text whole, or it takes the text up to
  the last newline that there is room for and fails there (`Cut`). Two texts in
  turn are taken like one, as long as the first of them is taken whole.
-/

namespace Lox
namespace Sink

/-- Something comes after the `k`-th newline of a text, and `front` is the text up
to and including that newline. -/
structure Cut (k : Nat) (cs front : List Char) : Prop where
  more : ∃ back, back ≠ [] ∧ cs = front ++ back
  newlines : newlines front = k
  last : ∀ c ∈ front.getLast?, c = '\n'

variable {k : Nat} {c : Char} {cs front : List Char}

theorem newlines_cons (c : Char) (cs : List Char) :
    Lox.newlines (c :: cs) = Lox.newlines cs + if c = '\n' then 1 else 0 := by
  rw [Lox.newlines, List.count_cons, Lox.newlines]
  by_cases hc : c = '\n' <;> simp [hc]

theorem cut_zero {cs : List Char} (h : cs ≠ []) : Cut 0 cs [] := ⟨⟨cs, h, rfl⟩, rfl, nofun⟩

/-- A text is cut behind its first character like what follows that one. -/
theorem Cut.cons (h : Cut (if c = '\n' then k else k + 1) cs front) :
    Cut (k + 1) (c :: cs) (c :: front) := by
  obtain ⟨⟨back, hback, rfl⟩, hcount, hlast⟩ := h
  refine ⟨⟨back, hback, rfl⟩, ?_, fun d hd => ?_⟩
  · rw [newlines_cons, hcount]
    split <;> rfl
  · cases front with
    | nil =>
      obtain rfl : c = d := by simpa using hd
      by_contra hc
      rw [if_neg hc] at hcount
      cases hcount
    | cons e front => exact hlast d (by simpa using hd)

theorem Cut.of_cons (h : Cut k (c :: cs) (c :: front)) :
    ∃ k', k = k' + 1 ∧ Cut (if c = '\n' then k' else k' + 1) cs front := by
  obtain ⟨⟨back, hback, hcs⟩, hcount, hlast⟩ := h
  have hrest : cs = front ++ back := (List.cons.inj hcs).2
  rw [newlines_cons] at hcount
  have hfront : ∀ d ∈ front.getLast?, d = '\n' := by
    intro d hd
    cases front with
    | nil => cases hd
    | cons e front => exact hlast d (by simpa using hd)
  by_cases hc : c = '\n'
  · rw [if_pos hc] at hcount
    exact ⟨Lox.newlines front, hcount.symm, ⟨back, hback, hrest⟩, by rw [if_pos hc], hfront⟩
  · rw [if_neg hc] at hcount
    -- the newline that ends the front is one of those that are left
    have hpos : 0 < Lox.newlines front := by
      rw [Lox.newlines, List.count_pos_iff]
      cases hf : front.getLast? with
      | none =>
        rw [List.getLast?_eq_none_iff] at hf
        subst hf
        exact absurd (hlast c (by simp)) hc
      | some d => exact hfront d hf ▸ List.mem_of_getLast? hf
    obtain ⟨k', hk'⟩ := Nat.exists_eq_succ_of_ne_zero (Nat.ne_of_gt hpos)
    exact ⟨k', hcount.symm.trans hk', ⟨back, hback, hrest⟩, by rw [if_neg hc, hk'], hfront⟩

/-! ## What fits -/

theorem fitting_nil (k : Nat) : fitting k [] = ([], k) := by
  cases k <;> rfl

theorem fitting_zero (cs : List Char) : fitting 0 cs = ([], 0) := by
  cases cs <;> rfl

theorem fitting_cons (k : Nat) (c : Char) (cs : List Char) :
    fitting (k + 1) (c :: cs) = (c :: (fitting (if c = '\n' then k else k + 1) cs).1,
      (fitting (if c = '\n' then k else k + 1) cs).2) := rfl

theorem fitting_of_cut (h : Cut k cs front) : fitting k cs = (front, 0) := by
  induction front generalizing k cs with
  | nil =>
    obtain rfl : 0 = k := h.newlines
    exact fitting_zero cs
  | cons c front ih =>
    obtain ⟨back, -, rfl⟩ := h.more
    obtain ⟨k', rfl, hrest⟩ := Cut.of_cons h
    rw [List.cons_append, fitting_cons, ih (show Cut _ (front ++ back) front from hrest)]

/-- A text fits, or it is cut. -/
theorem fits_or_cut (k : Nat) (cs : List Char) :
    fitting k cs = (cs, k - Lox.newlines cs) ∨ ∃ front, Cut k cs front := by
  induction cs generalizing k with
  | nil => exact .inl (fitting_nil k)
  | cons c cs ih =>
    cases k with
    | zero => exact .inr ⟨[], cut_zero (List.cons_ne_nil c cs)⟩
    | succ k =>
      obtain hfits | ⟨front, hcut⟩ := ih (if c = '\n' then k else k + 1)
      · refine .inl ?_
        rw [fitting_cons, hfits, newlines_cons]
        by_cases hc : c = '\n' <;> simp [hc]
      · exact .inr ⟨c :: front, hcut.cons⟩

/-- What is cut is not taken whole. -/
theorem Cut.ne (h : Cut k cs front) : front ≠ cs := by
  obtain ⟨back, hback, rfl⟩ := h.more
  simpa using hback

/-- A text in two parts: the second is looked at if the first one fits. -/
theorem fitting_append_of_eq (h : (fitting k cs).1 = cs) (ds : List Char) :
    fitting k (cs ++ ds) =
      (cs ++ (fitting (fitting k cs).2 ds).1, (fitting (fitting k cs).2 ds).2) := by
  induction cs generalizing k with
  | nil =>
    rw [fitting_nil]
    rfl
  | cons c cs ih =>
    cases k with
    | zero => cases h
    | succ k =>
      rw [fitting_cons] at h
      rw [List.cons_append, fitting_cons, fitting_cons, ih (List.cons.inj h).2]
      rfl

theorem fitting_append_of_ne (h : (fitting k cs).1 ≠ cs) (ds : List Char) :
    fitting k (cs ++ ds) = fitting k cs := by
  induction cs generalizing k with
  | nil => exact absurd (congrArg Prod.fst (fitting_nil k)) h
  | cons c cs ih =>
    cases k with
    | zero => rfl
    | succ k =>
      rw [fitting_cons] at h
      rw [List.cons_append, fitting_cons, fitting_cons, ih fun he => h (congrArg (c :: ·) he)]

/-! ## Writing -/

variable {s : Sink} {text : String}

theorem write_of_limited (h : s.newlinesLeft = some k) (text : String) :
    s.write text = (decide ((fitting k text.toList).1 = text.toList),
      { s with written := s.written ++ String.ofList (fitting k text.toList).1
               newlinesLeft := some (fitting k text.toList).2 }) := by
  have hwhole : (fitting k text.toList).1.length = text.length ↔
      (fitting k text.toList).1 = text.toList := by
    constructor
    · intro hl
      exact (fitting_isPrefix k text.toList).eq_of_length (by rw [hl, String.length_toList])
    · intro he
      rw [he, String.length_toList]
  rw [write, h]
  simp only [hwhole]

/-- A sink that a text does not fill. -/
theorem write_of_fits (h : s.newlinesLeft = some k) (hfits : ¬∃ front, Cut k text.toList front) :
    s.write text = (true, { s with written := s.written ++ text
                                   newlinesLeft := some (k - Lox.newlines text.toList) }) := by
  rw [write_of_limited h, (fits_or_cut k text.toList).resolve_right hfits, String.ofList_toList]
  simp

/-- A sink that a text fills. -/
theorem write_of_cut (h : s.newlinesLeft = some k) (hcut : Cut k text.toList front) :
    s.write text = (false, { s with written := s.written ++ String.ofList front
                                    newlinesLeft := some 0 }) := by
  rw [write_of_limited h, fitting_of_cut hcut]
  simp [hcut.ne]

theorem write_empty (s : Sink) : s.write "" = (true, s) := by
  cases h : s.newlinesLeft with
  | none =>
    rw [write_of_unlimited s "" h, String.append_empty]
  | some k =>
    rw [write_of_limited h]
    obtain ⟨written, newlinesLeft, flushFails⟩ := s
    cases h
    simp [fitting_nil]

/-- What was taken whole makes no difference to what comes after it. -/
theorem write_append_of_taken (h : (s.write text).1 = true) (more : String) :
    s.write (text ++ more) = (s.write text).2.write more := by
  cases hs : s.newlinesLeft with
  | none =>
    have hs' : ({ s with written := s.written ++ text } : Sink).newlinesLeft = none := hs
    rw [write_of_unlimited s _ hs, write_of_unlimited s _ hs, write_of_unlimited _ more hs',
      String.append_assoc]
  | some k =>
    rw [write_of_limited hs] at h ⊢
    have hwhole := of_decide_eq_true h
    rw [write_of_limited hs, write_of_limited rfl, String.toList_append,
      fitting_append_of_eq hwhole]
    simp [String.append_assoc, String.ofList_append, hwhole]

/-- A sink that is full takes nothing more. -/
theorem write_append_of_cut (h : (s.write text).1 = false) (more : String) :
    s.write (text ++ more) = s.write text := by
  cases hs : s.newlinesLeft with
  | none =>
    rw [write_of_unlimited s _ hs] at h
    cases h
  | some k =>
    rw [write_of_limited hs] at h
    have hcut := of_decide_eq_false h
    have hne : (fitting k text.toList).1 ≠ text.toList ++ more.toList := by
      intro he
      have hle := (fitting_isPrefix k text.toList).length_le
      rw [he, List.length_append] at hle
      have hnil : more.toList = [] := List.length_eq_zero_iff.1 (by omega)
      exact hcut (by rw [he, hnil, List.append_nil])
    rw [write_of_limited hs, write_of_limited hs, String.toList_append, fitting_append_of_ne hcut,
      decide_eq_false hcut, decide_eq_false hne]

end Sink
end Lox
