/-
  Sinks — where printed text goes

  A sink may be limited to a number of newlines: it takes all text up to and
  including the last of them and fails at any character after that. What it
  took before failing stays written.
-/

namespace Lox

structure Sink where
  /-- The text taken so far. -/
  written : String
  /-- How many more newlines are taken; no limit if absent. -/
  newlinesLeft : Option Nat
  /-- Whether flushing fails. -/
  flushFails : Bool

namespace Sink

/-- A sink that takes everything. -/
def unlimited : Sink := ⟨"", none, false⟩

/-- The part of a text that a sink takes that has room for the given number of
newlines, and the room left after it. -/
def fitting : Nat → List Char → List Char × Nat
  | 0, _ => ([], 0)
  | room + 1, [] => ([], room + 1)
  | room + 1, c :: cs =>
    let (taken, left) := fitting (if c = '\n' then room else room + 1) cs
    (c :: taken, left)

/-- Writes a text and tells whether all of it was taken. -/
def write (s : Sink) (text : String) : Bool × Sink :=
  match s.newlinesLeft with
  | none => (true, { s with written := s.written ++ text })
  | some room =>
    let (taken, left) := fitting room text.toList
    (taken.length = text.length,
      { s with written := s.written ++ String.ofList taken, newlinesLeft := some left })

/-- What fits is the beginning of the text. -/
theorem fitting_isPrefix (room : Nat) (cs : List Char) : (fitting room cs).1 <+: cs := by
  fun_induction fitting room cs with
  | case1 => exact List.nil_prefix
  | case2 => exact List.nil_prefix
  | case3 room c cs taken left h ih =>
    rw [h] at ih
    exact List.cons_prefix_cons.2 ⟨rfl, ih⟩

/-- A sink without limit takes every text. -/
theorem write_of_unlimited (s : Sink) (text : String) (h : s.newlinesLeft = none) :
    s.write text = (true, { s with written := s.written ++ text }) := by
  simp [write, h]

end Sink
end Lox
