import Lox.Diagnostic

/-
  UTF-8 — source bytes as text

  The first byte of a character tells how many follow and in which ranges they
  lie, so that no character has two encodings and no surrogate has any. Bytes
  that do not fit are reported with the number of bytes that did; bytes that
  end inside a character are reported as incomplete.
-/

namespace Lox.Utf8

/-- The bits of a first byte that belong to the character, and the ranges of the
bytes that follow it. -/
def lead? (byte : Nat) : Option (Nat × List (Nat × Nat)) :=
  let any := (0x80, 0xbf)
  if byte < 0x80 then some (byte, [])
  else if 0xc2 ≤ byte ∧ byte ≤ 0xdf then some (byte - 0xc0, [any])
  -- smaller ones have an encoding of two bytes
  else if byte = 0xe0 then some (0, [(0xa0, 0xbf), any])
  -- larger ones are surrogates
  else if byte = 0xed then some (0xd, [(0x80, 0x9f), any])
  else if 0xe1 ≤ byte ∧ byte ≤ 0xef then some (byte - 0xe0, [any, any])
  -- smaller ones have an encoding of three bytes
  else if byte = 0xf0 then some (0, [(0x90, 0xbf), any, any])
  else if 0xf1 ≤ byte ∧ byte ≤ 0xf3 then some (byte - 0xf0, [any, any, any])
  -- larger ones are no code points
  else if byte = 0xf4 then some (4, [(0x80, 0x8f), any, any])
  else none

/-- What the bytes behind a first byte are. -/
inductive Tail where
  /-- The code point, how many bytes it took, and the bytes behind it. -/
  | complete (value taken : Nat) (rest : List UInt8)
  /-- After so many bytes comes one that does not fit. -/
  | broken (taken : Nat)
  /-- The bytes end too early. -/
  | missing

/-- Reads the bytes behind a first byte. -/
def tail (value taken : Nat) : List (Nat × Nat) → List UInt8 → Tail
  | [], bytes => .complete value taken bytes
  | _ :: _, [] => .missing
  | (low, high) :: ranges, byte :: bytes =>
    let b := byte.toNat
    if low ≤ b ∧ b ≤ high then tail (value * 64 + (b - 0x80)) (taken + 1) ranges bytes
    else .broken taken

theorem length_le_of_tail {value taken v t : Nat} {ranges : List (Nat × Nat)}
    {bytes rest : List UInt8} (h : tail value taken ranges bytes = .complete v t rest) :
    rest.length ≤ bytes.length := by
  fun_induction tail value taken ranges bytes with
  | case1 => simp_all
  | case2 => simp at h
  | case3 _ _ _ _ _ _ _ _ _ ih => have := ih h; simp only [List.length_cons]; omega
  | case4 => simp at h

/-- Reads the bytes from `index` on, behind the characters `read`, which are in
reverse. -/
def decodeFrom (index : Nat) (read : List Char) (bytes : List UInt8) :
    Except HostProblem String :=
  match bytes with
  | [] => .ok (.ofList read.reverse)
  | byte :: bytes =>
    match lead? byte.toNat with
    | none => .error (.invalidUtf8 1 index)
    | some (value, ranges) =>
      match h : tail value 1 ranges bytes with
      | .complete value taken rest =>
        have : rest.length < bytes.length + 1 := Nat.lt_succ_of_le (length_le_of_tail h)
        decodeFrom (index + taken) (.ofNat value :: read) rest
      | .broken taken => .error (.invalidUtf8 taken index)
      | .missing => .error (.truncatedUtf8 index)
termination_by bytes.length

/-- The text that the bytes encode. -/
def decode (bytes : List UInt8) : Except HostProblem String := decodeFrom 0 [] bytes

end Lox.Utf8
