import Lox.Proofs.Number.Bits

/-
  Rounding — which fractions are read as a number

  A fraction in the interval between the midpoints to the neighbours of
  `m · 2^q` is rounded to `m · 2^q`, the midpoints themselves if `m` is even
  (`Rounds`). The interval reaches less far down where the numbers below stand
  closer; there the fraction is rounded on the finer grid first and the carry
  leads back.
-/

namespace Lox.Number

/-! ## Powers -/

/-- A power with an integer exponent as a fraction of natural numbers. -/
theorem zpow_eq_div (b : ℚ) (e : Int) :
    b ^ e = b ^ e.toNat / b ^ (-e).toNat := by
  obtain he | he := Int.le_total 0 e
  · rw [Int.toNat_eq_zero.2 (by omega : -e ≤ 0), pow_zero, div_one, ← zpow_natCast,
      Int.toNat_of_nonneg he]
  · rw [Int.toNat_eq_zero.2 he, pow_zero, ← zpow_natCast, Int.toNat_of_nonneg (by omega),
      zpow_neg, one_div, inv_inv]

theorem two_zpow_pos (e : Int) : (0 : ℚ) < 2 ^ e := zpow_pos (by norm_num) e

theorem two_zpow_add_one (e : Int) : (2 : ℚ) ^ (e + 1) = 2 * 2 ^ e := by
  rw [zpow_add_one₀ (by norm_num), mul_comm]

/-- The two powers of two around a fraction determine its logarithm. -/
theorem two_zpow_unique {x : ℚ} {e f : Int} (he : 2 ^ e ≤ x) (he' : x < 2 ^ (e + 1))
    (hf : 2 ^ f ≤ x) (hf' : x < 2 ^ (f + 1)) : e = f := by
  have h₁ : e < f + 1 := (zpow_lt_zpow_iff_right₀ (by norm_num)).1 (he.trans_lt hf')
  have h₂ : f < e + 1 := (zpow_lt_zpow_iff_right₀ (by norm_num)).1 (hf.trans_lt he')
  omega

theorem two_zpow_le_log2 {n : Nat} (h : n ≠ 0) :
    (2 : ℚ) ^ (n.log2 : Int) ≤ n ∧ (n : ℚ) < 2 ^ ((n.log2 : Int) + 1) := by
  refine ⟨?_, ?_⟩
  · rw [zpow_natCast]
    exact_mod_cast Nat.log2_self_le h
  · have : n < 2 ^ (n.log2 + 1) := (Nat.log2_lt h).1 (Nat.lt_succ_self _)
    rw [← Nat.cast_add_one, zpow_natCast]
    exact_mod_cast this

theorem floorLog2_spec {a b : Nat} (ha : a ≠ 0) (hb : b ≠ 0) :
    (2 : ℚ) ^ floorLog2 a b ≤ a / b ∧ (a : ℚ) / b < 2 ^ (floorLog2 a b + 1) := by
  have hb' : (0 : ℚ) < b := by exact_mod_cast Nat.pos_of_ne_zero hb
  obtain ⟨ha₁, ha₂⟩ := two_zpow_le_log2 ha
  obtain ⟨hb₁, hb₂⟩ := two_zpow_le_log2 hb
  have htest : ∀ e : Int, b * 2 ^ e.toNat ≤ a * 2 ^ (-e).toNat ↔ (2 : ℚ) ^ e ≤ a / b := by
    intro e
    rw [zpow_eq_div, div_le_div_iff₀ (by positivity) hb']
    rw [← Nat.cast_le (α := ℚ)]
    push_cast
    rw [mul_comm (b : ℚ)]
  -- the fraction lies between two neighbouring powers of the difference
  have hlow : (2 : ℚ) ^ ((a.log2 : Int) - b.log2 - 1) ≤ a / b := by
    rw [le_div_iff₀ hb']
    calc (2 : ℚ) ^ ((a.log2 : Int) - b.log2 - 1) * b
        ≤ 2 ^ ((a.log2 : Int) - b.log2 - 1) * 2 ^ ((b.log2 : Int) + 1) := by gcongr
      _ = 2 ^ (a.log2 : Int) := by rw [← zpow_add₀ (by norm_num)]; congr 1; omega
      _ ≤ a := ha₁
  have hhigh : (a : ℚ) / b < 2 ^ ((a.log2 : Int) - b.log2 + 1) := by
    rw [div_lt_iff₀ hb']
    calc (a : ℚ) < 2 ^ ((a.log2 : Int) + 1) := ha₂
      _ = 2 ^ ((a.log2 : Int) - b.log2 + 1) * 2 ^ (b.log2 : Int) := by
        rw [← zpow_add₀ (by norm_num)]; congr 1; omega
      _ ≤ 2 ^ ((a.log2 : Int) - b.log2 + 1) * b := by gcongr
  rw [floorLog2]
  split
  · rename_i h
    exact ⟨(htest _).1 h, hhigh⟩
  · rename_i h
    have h' := lt_of_not_ge (mt (htest _).2 h)
    exact ⟨hlow, by rwa [Int.sub_add_cancel]⟩

/-- The logarithm of a fraction between two powers. -/
theorem floorLog2_eq {a b : Nat} {e : Int} (ha : a ≠ 0) (hb : b ≠ 0) (h : (2 : ℚ) ^ e ≤ a / b)
    (h' : (a : ℚ) / b < 2 ^ (e + 1)) : floorLog2 a b = e :=
  two_zpow_unique (floorLog2_spec ha hb).1 (floorLog2_spec ha hb).2 h h'

/-! ## Rounding to an integer -/

/-- A fraction at most a half away from an integer is rounded to it, one exactly
a half away only if the integer is even. -/
theorem roundHalfEven_eq {a b r : Nat} (hb : 0 < b) (hlow : 2 * (r * b) ≤ 2 * a + b)
    (hhigh : 2 * a ≤ 2 * (r * b) + b)
    (hodd : r % 2 = 1 → 2 * (r * b) < 2 * a + b ∧ 2 * a < 2 * (r * b) + b) :
    roundHalfEven a b = r := by
  have hdiv := Nat.div_add_mod a b
  have hmod := Nat.mod_lt a hb
  rw [roundHalfEven]
  generalize a / b = q at *
  generalize a % b = s at *
  subst hdiv
  -- an integer that is this near is the quotient or the next one
  have hqr : r = q ∨ r = q + 1 := by
    have h₁ : q ≤ r := by
      by_contra hlt
      have : (r + 1) * b ≤ q * b := Nat.mul_le_mul_right b (by omega)
      rw [Nat.add_mul] at this
      rw [Nat.mul_comm b q] at hhigh
      omega
    have h₂ : r ≤ q + 1 := by
      by_contra hlt
      have : (q + 2) * b ≤ r * b := Nat.mul_le_mul_right b (by omega)
      rw [Nat.add_mul] at this
      rw [Nat.mul_comm b q] at hlow
      omega
    omega
  obtain rfl | rfl := hqr
  · rw [Nat.mul_comm b r] at *
    split
    · rfl
    · split
      · omega
      · omega
  · rw [Nat.add_mul, Nat.mul_comm b q] at *
    split
    · omega
    · split
      · rfl
      · omega

/-- The same for a fraction given as a rational number. -/
theorem roundHalfEven_of_ratio {a b r : Nat} {x : ℚ} (hb : 0 < b) (hx : (a : ℚ) / b = x)
    (hlow : (r : ℚ) - 1 / 2 ≤ x) (hhigh : x ≤ r + 1 / 2)
    (hodd : r % 2 = 1 → (r : ℚ) - 1 / 2 < x ∧ x < r + 1 / 2) : roundHalfEven a b = r := by
  have hb' : (0 : ℚ) < b := by exact_mod_cast hb
  have ha : (a : ℚ) = x * b := by rw [← hx]; field_simp
  refine roundHalfEven_eq hb ?_ ?_ fun h => ⟨?_, ?_⟩
  · have := mul_le_mul_of_nonneg_right hlow hb'.le
    have : (2 * (r * b) : ℚ) ≤ 2 * a + b := by rw [ha]; linarith
    exact_mod_cast this
  · have := mul_le_mul_of_nonneg_right hhigh hb'.le
    have : (2 * a : ℚ) ≤ 2 * (r * b) + b := by rw [ha]; linarith
    exact_mod_cast this
  · have := mul_lt_mul_of_pos_right (hodd h).1 hb'
    have : (2 * (r * b) : ℚ) < 2 * a + b := by rw [ha]; linarith
    exact_mod_cast this
  · have := mul_lt_mul_of_pos_right (hodd h).2 hb'
    have : (2 * a : ℚ) < 2 * (r * b) + b := by rw [ha]; linarith
    exact_mod_cast this

/-! ## Rounding to a number -/

/-- The fractions that are rounded to `m · 2^q`: those up to the midpoints to its
neighbours. -/
structure Rounds (m : Nat) (q : Int) (x : ℚ) : Prop where
  low : (m - Decimal.quartersBelow m q / 4) * 2 ^ q ≤ x
  high : x ≤ (m + 1 / 2) * 2 ^ q
  odd : m % 2 = 1 → (m - Decimal.quartersBelow m q / 4) * 2 ^ q < x ∧ x < (m + 1 / 2) * 2 ^ q

namespace Rounds

variable {m : Nat} {q : Int} {x : ℚ}

/-- A number is rounded to itself. -/
theorem self (m : Nat) (q : Int) : Rounds m q (m * 2 ^ q) := by
  have hpos := two_zpow_pos q
  have hquarters : (0 : ℚ) < Decimal.quartersBelow m q := by
    rw [Decimal.quartersBelow]
    split <;> norm_num
  refine ⟨?_, ?_, fun _ => ⟨?_, ?_⟩⟩
  · gcongr; linarith
  · gcongr; linarith
  · gcongr; linarith
  · gcongr; linarith

/-- The fraction in units of the grid, away from the step to a finer one. -/
theorem scaled (h : Rounds m q x) (hstep : ¬(m = 2 ^ 52 ∧ minExponent < q ∧ x < m * 2 ^ q)) :
    (m : ℚ) - 1 / 2 ≤ x / 2 ^ q ∧ x / 2 ^ q ≤ m + 1 / 2 ∧
      (m % 2 = 1 → (m : ℚ) - 1 / 2 < x / 2 ^ q ∧ x / 2 ^ q < m + 1 / 2) := by
  have hpos := two_zpow_pos q
  rw [le_div_iff₀ hpos, div_le_iff₀ hpos, lt_div_iff₀ hpos, div_lt_iff₀ hpos]
  by_cases hm : m = 2 ^ 52 ∧ minExponent < q
  · have hx : m * 2 ^ q ≤ x := not_lt.1 fun hlt => hstep ⟨hm.1, hm.2, hlt⟩
    refine ⟨?_, h.high, fun hodd => ⟨?_, (h.odd hodd).2⟩⟩
    · linarith
    · linarith
  · have hquarters : ((Decimal.quartersBelow m q : Nat) : ℚ) / 4 = 1 / 2 := by
      rw [Decimal.quartersBelow, if_neg hm]
      norm_num
    have hlow := h.low
    have hodd := h.odd
    rw [hquarters] at hlow hodd
    exact ⟨hlow, h.high, hodd⟩

theorem nonneg_of_pos (h : Rounds m q x) (hm : 0 < m) : 0 < x := by
  have hpos := two_zpow_pos q
  have hm' : (1 : ℚ) ≤ m := by exact_mod_cast hm
  have hquarters : ((Decimal.quartersBelow m q : Nat) : ℚ) ≤ 2 := by
    rw [Decimal.quartersBelow]
    split <;> norm_num
  refine lt_of_lt_of_le ?_ h.low
  apply mul_pos _ hpos
  linarith

theorem lt_top (h : Rounds m q x) (hn : Normal m q) : x < 2 ^ (q + 53) := by
  have hpos := two_zpow_pos q
  have hm : (m : ℚ) + 1 ≤ 2 ^ 53 := by exact_mod_cast hn.lt
  calc x ≤ (m + 1 / 2) * 2 ^ q := h.high
    _ < 2 ^ 53 * 2 ^ q := by gcongr; linarith
    _ = 2 ^ (q + 53) := by
      rw [zpow_add₀ (by norm_num), mul_comm]
      norm_num

end Rounds

/-- The pattern that a rounded significand and its exponent stand for. -/
theorem nearestBits_of_exponent {a b r : Nat} {q : Int} (ha : a ≠ 0)
    (hq : max (floorLog2 a b - 52) minExponent = q)
    (hr : roundHalfEven (a * 2 ^ (-q).toNat) (b * 2 ^ q.toNat) = r)
    (hbits : (q - minExponent).toNat * 2 ^ 52 + r ≤ infinityBits) :
    nearestBits a b = (q - minExponent).toNat * 2 ^ 52 + r := by
  rw [nearestBits, if_neg ha]
  dsimp only
  rw [hq, hr]
  exact Nat.min_eq_left hbits

theorem ratio_scaled {a b : Nat} (q : Int) :
    ((a * 2 ^ (-q).toNat : Nat) : ℚ) / (b * 2 ^ q.toNat : Nat) = (a / b : ℚ) / 2 ^ q := by
  rw [zpow_eq_div]
  push_cast
  field_simp

/-- Just below a power of two the grid is twice as fine. A fraction that is rounded to the
power is rounded up to it there too. -/
theorem nearestBits_below_power {a b : Nat} {q : Int} (ha : a ≠ 0) (hb : 0 < b)
    (hn : Normal (2 ^ 52) q) (hq : minExponent < q) (h : Rounds (2 ^ 52) q (a / b))
    (hx : (a / b : ℚ) < (2 ^ 52 : Nat) * 2 ^ q) : nearestBits a b = patternOf (2 ^ 52) q := by
  have hlow := h.low
  rw [Decimal.quartersBelow, if_pos ⟨rfl, hq⟩] at hlow
  have hfine : (2 : ℚ) ^ q = 2 * 2 ^ (q - 1) := by rw [← two_zpow_add_one, Int.sub_add_cancel]
  have hpos := two_zpow_pos (q - 1)
  -- the fraction is in the binade below, so it is rounded on the finer grid
  have hlog : floorLog2 a b = q + 51 := by
    refine floorLog2_eq ha hb.ne' ?_ ?_
    · rw [zpow_add₀ (by norm_num)]
      norm_num at hlow ⊢
      linarith
    · rw [show q + 51 + 1 = q + 52 by omega, zpow_add₀ (by norm_num)]
      norm_num at hx ⊢
      linarith
  have hround : roundHalfEven (a * 2 ^ (-(q - 1)).toNat) (b * 2 ^ (q - 1).toNat) = 2 ^ 53 := by
    refine roundHalfEven_of_ratio (by positivity) (ratio_scaled (q - 1)) ?_ ?_ (fun hodd => by omega)
    · rw [le_div_iff₀ hpos]
      norm_num at hlow ⊢
      linarith
    · rw [div_le_iff₀ hpos]
      norm_num at hx ⊢
      linarith
  have hbits := hn.patternOf_lt
  -- rounded up, the significand has one bit too many, and that bit is added to the exponent
  have hcarry : (q - 1 - minExponent).toNat * 2 ^ 52 + 2 ^ 53 = patternOf (2 ^ 52) q := by
    rw [patternOf]
    omega
  rw [← hcarry]
  exact nearestBits_of_exponent ha (by rw [hlog]; omega) hround (by omega)

/-- Anywhere else the grid is that of the number. -/
theorem Rounds.exponent_eq {a b m : Nat} {q : Int} (ha : a ≠ 0) (hb : 0 < b) (hn : Normal m q)
    (h : Rounds m q (a / b))
    (hstep : ¬(m = 2 ^ 52 ∧ minExponent < q ∧ (a / b : ℚ) < m * 2 ^ q)) :
    max (floorLog2 a b - 52) minExponent = q := by
  obtain ⟨hlow, hhigh⟩ := floorLog2_spec ha hb.ne'
  have hlog : floorLog2 a b < q + 53 :=
    (zpow_lt_zpow_iff_right₀ (by norm_num)).1 (hlow.trans_lt (h.lt_top hn))
  by_cases hleast : q = minExponent
  · omega
  · have hleast' := hn.least
    have hlead : 2 ^ 52 ≤ m := hn.leading.resolve_right hleast
    -- the fraction is not below the binade, or the step from it would be the finer one
    have hx : (2 : ℚ) ^ (q + 52) ≤ a / b := by
      rw [zpow_add₀ (by norm_num), mul_comm]
      obtain hm | hm := Nat.eq_or_lt_of_le hlead
      · have := not_lt.1 fun hlt => hstep ⟨hm.symm, by omega, hlt⟩
        rw [← hm] at this
        exact_mod_cast this
      · rw [← le_div_iff₀ (two_zpow_pos q)]
        have hm' : (2 ^ 52 + 1 : ℚ) ≤ m := by exact_mod_cast hm
        calc (2 : ℚ) ^ (52 : Int) = 2 ^ 52 := by norm_num
          _ ≤ m - 1 / 2 := by linarith
          _ ≤ a / b / 2 ^ q := (h.scaled hstep).1
    have : q + 52 < floorLog2 a b + 1 :=
      (zpow_lt_zpow_iff_right₀ (by norm_num)).1 (hx.trans_lt hhigh)
    omega

/-- A fraction is read as the number it is rounded to. -/
theorem nearestBits_of_rounds {a b m : Nat} {q : Int} (hb : 0 < b) (hn : Normal m q)
    (h : Rounds m q (a / b)) : nearestBits a b = patternOf m q := by
  by_cases ha : a = 0
  · have hm : m = 0 := by
      by_contra hm
      have := h.nonneg_of_pos (Nat.pos_of_ne_zero hm)
      rw [ha] at this
      simp at this
    obtain hlead | rfl := hn.leading
    · omega
    · rw [ha, hm, nearestBits, if_pos rfl, patternOf, Int.sub_self]
      rfl
  by_cases hstep : m = 2 ^ 52 ∧ minExponent < q ∧ (a / b : ℚ) < m * 2 ^ q
  · obtain ⟨rfl, hq, hx⟩ := hstep
    exact nearestBits_below_power ha hb hn hq h hx
  · obtain ⟨hlow, hhigh, hodd⟩ := h.scaled hstep
    have hbits := hn.patternOf_lt
    rw [patternOf] at hbits
    exact nearestBits_of_exponent ha (h.exponent_eq ha hb hn hstep)
      (roundHalfEven_of_ratio (by positivity) (ratio_scaled q) hlow hhigh hodd) hbits.le

end Lox.Number
