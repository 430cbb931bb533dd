import Lox.Proofs.Number.Rounding

/-
  Reading back — the text of a number is read as that number

  The search for the shortest decimal only ends with a decimal that reads back,
  and the exact decimal reads back too. The text of a decimal has its digits in
  their places, so reading the text leads to the decimal and from there to the
  number. Everything here is about finite numbers that are not negative, the
  only ones that literals are.
-/

namespace Lox.Number

namespace Decimal

/-- The fraction that a decimal is. -/
def value (d : Decimal) : ℚ := d.digits * 10 ^ d.exponent

/-- A decimal that is rounded to a number is read as it. -/
theorem toFloat_eq {d : Decimal} {x : Float} {m : Nat} {q : Int}
    (hx : decode x = .finite false m q) (h : Rounds m q d.value) : d.toFloat = x := by
  obtain ⟨hn, hbits⟩ := Binary64.ofBits_finite x.toBits.toNat_lt hx
  have hratio : ((d.digits * 10 ^ d.exponent.toNat : Nat) : ℚ) / (10 ^ (-d.exponent).toNat : Nat) =
      d.value := by
    rw [value, zpow_eq_div]
    push_cast
    rw [mul_div_assoc]
  refine eq_of_toBits_eq ?_
  rw [toFloat, nearest, nearestBits_of_rounds (by positivity) hn (by rwa [hratio]),
    toBits_ofBits hn.patternOf_lt.le, hbits]

/-! ## The search for the shortest decimal -/

/-- The decimal in the unit of the search. -/
theorem value_scaled (c : Nat) (q k : Int) :
    value ⟨c, k⟩ * (2 ^ (2 - q).toNat * 10 ^ (-k).toNat) =
      (c * (2 ^ (2 - q).toNat * 10 ^ k.toNat) : Nat) := by
  rw [value, zpow_eq_div]
  push_cast
  field_simp

/-- Quarters of a step in the unit of the search. -/
theorem quarters_scaled (n : ℚ) (q k : Int) :
    n / 4 * 2 ^ q * (2 ^ (2 - q).toNat * 10 ^ (-k).toNat) =
      n * (2 ^ (q - 2).toNat * 10 ^ (-k).toNat) := by
  have hgrid : (2 : ℚ) ^ q = 4 * 2 ^ (q - 2) := by
    rw [zpow_sub₀ (by norm_num)]
    ring
  rw [hgrid, zpow_eq_div 2 (q - 2), neg_sub]
  field_simp

/-- The midpoint below a number in the unit of the search. -/
theorem low_scaled_le (m : Nat) (q k : Int) :
    (m - quartersBelow m q / 4 : ℚ) * 2 ^ q * (2 ^ (2 - q).toNat * 10 ^ (-k).toNat) ≤
      ((4 * m - quartersBelow m q) * (2 ^ (q - 2).toNat * 10 ^ (-k).toNat) : Nat) := by
  -- below the least number the difference of naturals is cut off
  have hsub : (4 * m - quartersBelow m q : ℚ) ≤ (4 * m - quartersBelow m q : Nat) := by
    rw [sub_le_iff_le_add]
    exact_mod_cast (by omega : 4 * m ≤ 4 * m - quartersBelow m q + quartersBelow m q)
  calc (m - quartersBelow m q / 4 : ℚ) * 2 ^ q * (2 ^ (2 - q).toNat * 10 ^ (-k).toNat)
      = (4 * m - quartersBelow m q) / 4 * 2 ^ q * (2 ^ (2 - q).toNat * 10 ^ (-k).toNat) := by ring
    _ = (4 * m - quartersBelow m q) * (2 ^ (q - 2).toNat * 10 ^ (-k).toNat) := quarters_scaled ..
    _ ≤ (4 * m - quartersBelow m q : Nat) * (2 ^ (q - 2).toNat * 10 ^ (-k).toNat) := by gcongr
    _ = _ := by push_cast; rfl

/-- The midpoint above a number in the unit of the search. -/
theorem high_scaled (m : Nat) (q k : Int) :
    (m + 1 / 2 : ℚ) * 2 ^ q * (2 ^ (2 - q).toNat * 10 ^ (-k).toNat) =
      ((4 * m + 2) * (2 ^ (q - 2).toNat * 10 ^ (-k).toNat) : Nat) := by
  calc (m + 1 / 2 : ℚ) * 2 ^ q * (2 ^ (2 - q).toNat * 10 ^ (-k).toNat)
      = (4 * m + 2) / 4 * 2 ^ q * (2 ^ (2 - q).toNat * 10 ^ (-k).toNat) := by ring
    _ = (4 * m + 2) * (2 ^ (q - 2).toNat * 10 ^ (-k).toNat) := quarters_scaled ..
    _ = _ := by push_cast; rfl

/-- What is found to lie between the midpoints is rounded to the number. -/
theorem rounds_of_readsBack {m c : Nat} {q k : Int} (h : readsBack m q c k = true) :
    Rounds m q (value ⟨c, k⟩) := by
  have hscale : (0 : ℚ) < 2 ^ (2 - q).toNat * 10 ^ (-k).toNat := by positivity
  have hlow := low_scaled_le m q k
  have hhigh := high_scaled m q k
  have hpoint := value_scaled c q k
  rw [readsBack] at h
  split at h
  · rename_i heven
    obtain ⟨hl, hh⟩ := of_decide_eq_true h
    refine ⟨le_of_mul_le_mul_right ?_ hscale, le_of_mul_le_mul_right ?_ hscale,
      fun hodd => by omega⟩
    · rw [hpoint]
      exact hlow.trans (Nat.cast_le.2 hl)
    · rw [hpoint, hhigh]
      exact Nat.cast_le.2 hh
  · obtain ⟨hl, hh⟩ := of_decide_eq_true h
    have hlow' : (m - quartersBelow m q / 4 : ℚ) * 2 ^ q < value ⟨c, k⟩ := by
      refine lt_of_mul_lt_mul_right ?_ hscale.le
      rw [hpoint]
      exact hlow.trans_lt (Nat.cast_lt.2 hl)
    have hhigh' : value ⟨c, k⟩ < (m + 1 / 2 : ℚ) * 2 ^ q := by
      refine lt_of_mul_lt_mul_right ?_ hscale.le
      rw [hpoint, hhigh]
      exact Nat.cast_lt.2 hh
    exact ⟨hlow'.le, hhigh'.le, fun _ => ⟨hlow', hhigh'⟩⟩

theorem value_exact (m : Nat) (q : Int) : (exact m q).value = m * 2 ^ q := by
  have hmin : (10 : ℚ) ^ min q 0 = 2 ^ min q 0 * 5 ^ min q 0 := by
    rw [← mul_zpow]
    norm_num
  have htwo : (2 : ℚ) ^ q.toNat * 2 ^ min q 0 = 2 ^ q := by
    rw [← zpow_natCast, ← zpow_add₀ (by norm_num)]
    congr 1
    omega
  have hfive : (5 : ℚ) ^ (-q).toNat * 5 ^ min q 0 = 1 := by
    rw [← zpow_natCast, ← zpow_add₀ (by norm_num), (by omega : ((-q).toNat : Int) + min q 0 = 0),
      zpow_zero]
  rw [value, exact, hmin]
  push_cast
  calc (m : ℚ) * 2 ^ q.toNat * 5 ^ (-q).toNat * (2 ^ min q 0 * 5 ^ min q 0)
      = m * (2 ^ q.toNat * 2 ^ min q 0) * (5 ^ (-q).toNat * 5 ^ min q 0) := by ring
    _ = m * 2 ^ q := by rw [htwo, hfive, mul_one]

theorem rounds_of_onGrid? {tie : Tie} {m : Nat} {q k : Int} {d : Decimal}
    (h : onGrid? tie m q k = some d) : Rounds m q d.value := by
  -- of two decimals that read back, either one does
  have heven : ∀ c, readsBack m q c k = true → readsBack m q (c + 1) k = true →
      readsBack m q (c + c % 2) k = true := by
    intro c h₁ h₂
    obtain hc | hc := Nat.mod_two_eq_zero_or_one c <;> rw [hc] <;> assumption
  simp only [onGrid?] at h
  split at h
  · cases h
  · cases h; exact rounds_of_readsBack ‹_›
  · cases h; exact rounds_of_readsBack ‹_›
  · split at h
    · cases h; exact rounds_of_readsBack ‹_›
    · split at h
      · cases h; exact rounds_of_readsBack ‹_›
      · split at h
        · cases h; exact rounds_of_readsBack ‹_›
        · cases h; exact rounds_of_readsBack (heven _ ‹_› ‹_›)

theorem rounds_search (tie : Tie) (m : Nat) (q k : Int) (grids : Nat) :
    Rounds m q (search tie m q k grids).value := by
  induction grids generalizing k with
  | zero => rw [search, value_exact]; exact .self m q
  | succ grids ih =>
    rw [search]
    split
    · rename_i d hd
      exact rounds_of_onGrid? hd
    · exact ih (k - 1)

/-- The shortest decimal of a number is rounded to it. -/
theorem rounds_shortest (tie : Tie) (m : Nat) (q : Int) :
    Rounds m q (shortest tie m q).value := rounds_search ..

end Decimal

/-! ## Digits -/

theorem natOfDigits_eq (digits : List Char) : natOfDigits digits = Nat.ofDigitChars 10 digits 0 :=
  rfl

theorem natOfDigits_digitsOf (n : Nat) : natOfDigits (digitsOf n) = n :=
  Nat.ofDigitChars_toDigits (by decide) (by decide)

theorem natOfDigits_append_zeros (digits : List Char) (n : Nat) :
    natOfDigits (digits ++ List.replicate n '0') = natOfDigits digits * 10 ^ n := by
  rw [natOfDigits_eq, Nat.ofDigitChars_append, Nat.ofDigitChars_replicate_zero, Nat.mul_comm]
  rfl

theorem natOfDigits_zeros_append (digits : List Char) (n : Nat) :
    natOfDigits (List.replicate n '0' ++ digits) = natOfDigits digits := by
  rw [natOfDigits_eq, Nat.ofDigitChars_append, Nat.ofDigitChars_replicate_zero, Nat.mul_zero]
  rfl

theorem isDigit_of_mem_digitsOf {n : Nat} {c : Char} (h : c ∈ digitsOf n) : c.isDigit = true :=
  Nat.isDigit_of_mem_toDigits (by decide) (by decide) h

theorem isDigit_of_mem_zeros {n : Nat} {c : Char} (h : c ∈ List.replicate n '0') :
    c.isDigit = true := by
  rw [List.eq_of_mem_replicate h]
  rfl

/-- Digits with a point and a fraction behind them, if there is one. -/
def numeral (whole fraction : List Char) : List Char :=
  whole ++ if fraction = [] then [] else '.' :: fraction

/-- A text that is a numeral and is read as the given number. -/
structure Spells (whole fraction text : List Char) (x : Float) : Prop where
  text_eq : text = numeral whole fraction
  whole_ne_nil : whole ≠ []
  isDigit : ∀ c ∈ whole ++ fraction, c.isDigit = true
  value_eq : ofDigits whole fraction = x

section
variable {d : Decimal} {x : Float} {m : Nat} {q : Int}

/-- A decimal without a fraction is spelled by its digits and zeros behind them. -/
theorem Decimal.spells_whole (hx : decode x = .finite false m q) (h : Rounds m q d.value)
    (he : 0 ≤ d.exponent) :
    Spells (digitsOf d.digits ++ List.replicate d.exponent.toNat '0') []
      (digitsOf d.digits ++ List.replicate d.exponent.toNat '0') x where
  text_eq := by rw [numeral, if_pos rfl, List.append_nil]
  whole_ne_nil := by simp [digitsOf]
  isDigit c hc := by
    rw [List.append_nil, List.mem_append] at hc
    exact hc.elim isDigit_of_mem_digitsOf isDigit_of_mem_zeros
  value_eq := by
    have hvalue : value ⟨natOfDigits (digitsOf d.digits ++ List.replicate d.exponent.toNat '0'),
        0⟩ = d.value := by
      rw [value, natOfDigits_append_zeros, natOfDigits_digitsOf, value, zpow_zero, mul_one]
      push_cast
      rw [← zpow_natCast, Int.toNat_of_nonneg he]
    refine toFloat_eq hx ?_
    rw [List.append_nil]
    exact hvalue ▸ h

/-- A decimal with a fraction is spelled by its digits, with zeros before them, and a point
among them. -/
theorem Decimal.spells_fraction {padded : List Char} {zeros : Nat}
    (hx : decode x = .finite false m q) (h : Rounds m q d.value) (he : d.exponent < 0)
    (hpadded : List.replicate zeros '0' ++ digitsOf d.digits = padded)
    (hlength : (-d.exponent).toNat + 1 ≤ padded.length) :
    Spells (padded.take (padded.length - (-d.exponent).toNat))
      (padded.drop (padded.length - (-d.exponent).toNat))
      (padded.take (padded.length - (-d.exponent).toNat) ++
        '.' :: padded.drop (padded.length - (-d.exponent).toNat)) x := by
  have hdrop : (padded.drop (padded.length - (-d.exponent).toNat)).length =
      (-d.exponent).toNat := by
    rw [List.length_drop]
    omega
  refine ⟨?text, ?whole, fun c hc => ?digits, toFloat_eq hx ?value⟩
  case text =>
    have hne : padded.drop (padded.length - (-d.exponent).toNat) ≠ [] := by
      intro hnil
      rw [hnil, List.length_nil] at hdrop
      omega
    rw [numeral, if_neg hne]
  case whole =>
    intro hnil
    have := congrArg List.length hnil
    rw [List.length_take, List.length_nil] at this
    omega
  case digits =>
    rw [List.take_append_drop, ← hpadded, List.mem_append] at hc
    exact hc.elim isDigit_of_mem_zeros isDigit_of_mem_digitsOf
  case value =>
    have hdigits : natOfDigits padded = d.digits := by
      rw [← hpadded, natOfDigits_zeros_append, natOfDigits_digitsOf]
    rw [List.take_append_drop, hdigits, hdrop, Int.toNat_of_nonneg (by omega), neg_neg]
    exact h

/-- The text of a decimal is a numeral with the decimal's value. -/
theorem Decimal.exists_spelling (hx : decode x = .finite false m q) (h : Rounds m q d.value) :
    ∃ whole fraction, Spells whole fraction d.positional x := by
  rw [positional]
  split
  · exact ⟨_, _, spells_whole hx h ‹_›⟩
  · refine ⟨_, _, spells_fraction hx h (by omega) rfl ?_⟩
    rw [List.length_append, List.length_replicate]
    omega

end

/-- The text of a finite literal is a numeral that is read as the literal. -/
theorem Plain.exists_spelling {f : Plain} (hf : f.wholeEnd = ['.', '0']) {x : Float} {m : Nat}
    {q : Int} (hx : decode x = .finite false m q) :
    ∃ whole fraction, Spells whole fraction (f.chars x) x := by
  have hchars : f.chars x = f.magnitude m q := by
    rw [chars, hx]
    rfl
  rw [hchars, magnitude]
  split
  · rename_i hwhole
    rw [asWhole, Bool.and_eq_true] at hwhole
    have hmod : m % 2 ^ (-q).toNat = 0 := by simpa [isWhole] using hwhole.1
    refine ⟨digitsOf (wholePart m q), ['0'], ⟨by rw [hf]; rfl, by simp [digitsOf], ?_, ?_⟩⟩
    · intro c hc
      rw [List.mem_append] at hc
      exact hc.elim isDigit_of_mem_digitsOf (isDigit_of_mem_zeros (n := 1))
    · refine Decimal.toFloat_eq hx ?_
      have hvalue : Decimal.value ⟨natOfDigits (digitsOf (wholePart m q) ++ List.replicate 1 '0'),
          -1⟩ = m * 2 ^ q := by
        -- the number is whole, so nothing is lost in the division
        have hpart : ((wholePart m q : Nat) : ℚ) = m * 2 ^ q := by
          rw [wholePart, zpow_eq_div]
          have hdvd : 2 ^ (-q).toNat ∣ m * 2 ^ q.toNat :=
            Dvd.dvd.mul_right (Nat.dvd_of_mod_eq_zero hmod) _
          rw [Nat.cast_div hdvd (by positivity)]
          push_cast
          rw [mul_div_assoc]
        rw [Decimal.value, natOfDigits_append_zeros, natOfDigits_digitsOf, ← hpart]
        push_cast
        ring
      exact hvalue ▸ Rounds.self m q
  · exact Decimal.exists_spelling hx (Decimal.rounds_shortest ..)

/-! ## Literals -/

/-- A number that is neither infinite nor undefined. -/
def IsFinite (x : Float) : Prop := ∃ negative m q, decode x = .finite negative m q

theorem nearestBits_le (a b : Nat) : nearestBits a b ≤ infinityBits := by
  rw [nearestBits]
  split
  · exact Nat.zero_le _
  · exact Nat.min_le_right _ _

/-- A literal that is finite has no sign. -/
theorem IsFinite.decode_ofDigits {whole fraction : List Char}
    (h : IsFinite (ofDigits whole fraction)) :
    ∃ m q, decode (ofDigits whole fraction) = .finite false m q := by
  obtain ⟨negative, m, q, hx⟩ := h
  rw [ofDigits, Decimal.toFloat, nearest, decode_ofBits (nearestBits_le _ _)] at hx ⊢
  have hle := nearestBits_le (natOfDigits (whole ++ fraction) * 10 ^ (-(fraction.length : Int)).toNat)
    (10 ^ (- -(fraction.length : Int)).toNat)
  generalize nearestBits _ _ = bits at hx hle ⊢
  -- patterns up to infinity have the sign bit off
  have hsign : (bits / 2 ^ 63 % 2 == 1) = false := by
    rw [infinityBits] at hle
    rw [Nat.div_eq_of_lt (by omega)]
    rfl
  have hnegative : negative = false := by
    rw [Binary64.ofBits] at hx
    split at hx
    · split at hx <;> cases hx
    · split at hx <;> (cases hx; exact hsign)
  exact ⟨m, q, hnegative ▸ hx⟩

end Lox.Number
