import Mathlib
import Lox.Number.Text

/-
  Bits — numbers and their bit patterns

  A number is determined by its bits, every pattern up to that of infinity is
  kept as it is, and the parts of a finite number are in their normal form: its
  significand has 53 bits, or fewer on the finest grid.
-/

namespace Lox.Number

open Float.Model Float.Model.UnpackedFloat

theorem toBitVec_ofBitVec (x : BitVec 1) : (Sign.ofBitVec x).toBitVec = x := by
  revert x
  decide

/-- A pattern is its three parts. -/
theorem packComponents_unpack (b : BitVec 64) :
    packComponents .binary64 (Sign.ofBitVec (@unpackSign .binary64 b))
      (@unpackExponent .binary64 b) (@unpackMantissa .binary64 b) = b := by
  rw [packComponents, toBitVec_ofBitVec]
  -- bit by bit: mantissa, exponent and sign
  apply BitVec.eq_of_getLsbD_eq
  intro i hi
  simp only [unpackMantissa, unpackExponent, unpackSign, BitVec.getLsbD_append,
    BitVec.getLsbD_cast, BitVec.getLsbD_extractLsb]
  split
  · simp; omega
  · split
    · rw [Nat.add_sub_cancel' (by omega)]
      simp; omega
    · have hlast : i = 63 := by
        have : i < 1 + 11 + 52 := hi
        omega
      subst hlast
      simp only [Nat.reduceSub, Nat.reduceAdd]
      simp
      rfl

section Parts

variable {b : BitVec 64}

/-- The pattern of zero, or of a number on the finest grid. -/
theorem pack_unpack_least (he : @unpackExponent .binary64 b = 0#_) :
    UnpackedFloat.pack .binary64 (UnpackedFloat.unpack .binary64 b) = b := by
  have hparts := packComponents_unpack b
  have hother : (0#11 : BitVec 11) ≠ -1#_ := by decide
  unfold UnpackedFloat.unpack
  dsimp only
  rw [if_neg (he ▸ hother), if_pos he]
  by_cases hm : @unpackMantissa .binary64 b = 0#_
  · rw [dif_pos hm, UnpackedFloat.pack, packedZero]
    rw [he, hm] at hparts
    exact hparts
  · rw [dif_neg hm, UnpackedFloat.pack]
    -- a number on the finest grid has no leading bit, so it is packed with exponent zero
    have hlog : (@unpackMantissa .binary64 b).toNat.log2 < 52 := by
      rw [Nat.log2_lt]
      · exact (@unpackMantissa .binary64 b).isLt
      · exact fun h₀ => hm (BitVec.eq_of_toNat_eq h₀)
    rw [if_neg, if_neg]
    · rw [BitVec.ofNat_toNat, BitVec.setWidth_eq, ← he]
      exact hparts
    · show ¬ _ = 53
      omega
    · rw [he]
      decide

/-- The significand of other numbers has a bit in front of those that are kept. -/
theorem toNat_significand :
    (1#1 ++ @unpackMantissa .binary64 b).toNat =
      2 ^ 52 + (@unpackMantissa .binary64 b).toNat := by
  rw [BitVec.toNat_append, ← Nat.shiftLeft_add_eq_or_of_lt]
  · rfl
  · exact (@unpackMantissa .binary64 b).isLt

theorem pack_unpack_normal (he : @unpackExponent .binary64 b ≠ -1#_)
    (he0 : @unpackExponent .binary64 b ≠ 0#_) :
    UnpackedFloat.pack .binary64 (UnpackedFloat.unpack .binary64 b) = b := by
  have hlt : (@unpackMantissa .binary64 b).toNat < 2 ^ 52 := (@unpackMantissa .binary64 b).isLt
  have hexponent : (@unpackExponent .binary64 b).toNat < 2047 := by
    have h₁ : (@unpackExponent .binary64 b).toNat < 2048 := (@unpackExponent .binary64 b).isLt
    have h₂ : (@unpackExponent .binary64 b).toNat ≠ 2047 := fun h₂ => he (BitVec.eq_of_toNat_eq h₂)
    omega
  -- with the implicit bit in front the significand has its full length
  have hlog : (1#1 ++ @unpackMantissa .binary64 b).toNat.log2 = 52 := by
    rw [toNat_significand, Nat.log2_eq_iff (by omega)]
    omega
  have hbiased : ((@unpackExponent .binary64 b).toNat -
      (Format.binary64.exponentBias + Format.binary64.mantissaBitsWithoutImplicit) +
      Format.binary64.exponentBias + Format.binary64.mantissaBitsWithoutImplicit : Int).toNat =
        (@unpackExponent .binary64 b).toNat := by omega
  have hlow : BitVec.ofNat 52 (1#1 ++ @unpackMantissa .binary64 b).toNat =
      @unpackMantissa .binary64 b := by
    apply BitVec.eq_of_toNat_eq
    rw [BitVec.toNat_ofNat, toNat_significand, Nat.add_mod_left]
    exact Nat.mod_eq_of_lt hlt
  unfold UnpackedFloat.unpack
  dsimp only
  rw [if_neg he, if_neg he0, UnpackedFloat.pack, if_neg, if_pos]
  · rw [hbiased, BitVec.ofNat_toNat, BitVec.setWidth_eq, hlow]
    exact packComponents_unpack b
  · rw [hlog]
    rfl
  · rw [hbiased]
    show ¬ 2048 ≤ _
    omega

end Parts

/-- Taking a pattern apart and putting it together again gives it back, unless it
is no number. -/
theorem pack_unpack (b : BitVec 64)
    (h : @unpackExponent .binary64 b = -1#_ → @unpackMantissa .binary64 b = 0#_) :
    UnpackedFloat.pack .binary64 (UnpackedFloat.unpack .binary64 b) = b := by
  by_cases he : @unpackExponent .binary64 b = -1#_
  · have hparts := packComponents_unpack b
    rw [he, h he] at hparts
    unfold UnpackedFloat.unpack
    dsimp only
    rw [if_pos he, if_pos (h he), UnpackedFloat.pack, packedInfinity]
    exact hparts
  · by_cases he0 : @unpackExponent .binary64 b = 0#_
    · exact pack_unpack_least he0
    · exact pack_unpack_normal he he0

/-- A number is what its bits say. -/
theorem eq_of_toBits_eq {x y : Float} (h : x.toBits.toNat = y.toBits.toNat) : x = y := by
  obtain ⟨⟨xb, _⟩⟩ := x
  obtain ⟨⟨yb, _⟩⟩ := y
  have hb : xb = yb := UInt64.toNat_inj.1 h
  subst hb
  rfl

/-- The patterns up to infinity are kept. -/
theorem toBits_ofBits {n : Nat} (h : n ≤ infinityBits) :
    (Float.ofBits (.ofNat n)).toBits.toNat = n := by
  have hn : n < 2 ^ 63 := by
    rw [infinityBits] at h
    omega
  have hpack := pack_unpack (UInt64.ofNat n).toBitVec
  have htoNat : (UInt64.ofNat n).toBitVec.toNat = n := by
    show (UInt64.ofNat n).toNat = n
    rw [UInt64.toNat_ofNat']
    omega
  show (UInt64.ofBitVec (UnpackedFloat.pack .binary64 (UnpackedFloat.unpack .binary64
    (UInt64.ofNat n).toBitVec))).toNat = n
  rw [hpack]
  · exact htoNat
  · intro he
    -- only the pattern of infinity has the greatest exponent, and its mantissa is zero
    have he' : n / 2 ^ 52 % 2 ^ 11 = 2047 := by
      have := congrArg BitVec.toNat he
      rw [unpackExponent, BitVec.toNat_cast, BitVec.extractLsb_toNat, htoNat,
        Nat.shiftRight_eq_div_pow] at this
      exact this
    apply BitVec.eq_of_toNat_eq
    rw [unpackMantissa, BitVec.toNat_cast, BitVec.extractLsb_toNat, htoNat,
      Nat.shiftRight_eq_div_pow]
    show n / 2 ^ 0 % 2 ^ 52 = 0
    rw [infinityBits] at h
    omega

/-! ## The parts of a number -/

/-- The pairs `m · 2^q` that are parts of a finite number. -/
structure Normal (m : Nat) (q : Int) : Prop where
  lt : m < 2 ^ 53
  least : minExponent ≤ q
  greatest : q ≤ 971
  /-- Only on the finest grid the leading bit may be missing. -/
  leading : 2 ^ 52 ≤ m ∨ q = minExponent

/-- The pattern of a positive number by its parts. -/
def patternOf (m : Nat) (q : Int) : Nat := (q - minExponent).toNat * 2 ^ 52 + m

theorem Normal.patternOf_lt {m : Nat} {q : Int} (h : Normal m q) :
    patternOf m q < infinityBits := by
  have hlt := h.lt
  have hq := h.greatest
  have hstep : (q - minExponent).toNat ≤ 2045 := by
    rw [minExponent]
    omega
  have := Nat.mul_le_mul_right (2 ^ 52) hstep
  rw [patternOf, infinityBits]
  omega

/-- The parts of a finite positive number are normal, and its pattern is theirs. -/
theorem Binary64.ofBits_finite {bits m : Nat} {q : Int} (hbits : bits < 2 ^ 64)
    (h : Binary64.ofBits bits = .finite false m q) : Normal m q ∧ bits = patternOf m q := by
  have hsign : (bits / 2 ^ 63 % 2 == 1) = false → bits < 2 ^ 63 := by
    intro hb
    have : bits / 2 ^ 63 % 2 ≠ 1 := by simpa using hb
    omega
  rw [Binary64.ofBits] at h
  split at h
  · split at h <;> cases h
  · rename_i hmax
    split at h
    · rename_i hzero
      injection h with h₁ h₂ h₃
      have hb := hsign h₁
      subst h₂ h₃
      refine ⟨⟨by omega, Int.le_refl _, by decide, .inr rfl⟩, ?_⟩
      rw [patternOf, Int.sub_self]
      omega
    · rename_i hzero
      injection h with h₁ h₂ h₃
      have hb := hsign h₁
      subst h₂ h₃
      rw [patternOf, minExponent]
      refine ⟨⟨by omega, by rw [minExponent]; omega, by omega, .inl (by omega)⟩, ?_⟩
      omega

/-- The parts of a number that is put together from a pattern are the pattern's. -/
theorem decode_ofBits {n : Nat} (h : n ≤ infinityBits) :
    decode (.ofBits (.ofNat n)) = Binary64.ofBits n := by
  rw [decode, toBits_ofBits h]

end Lox.Number
