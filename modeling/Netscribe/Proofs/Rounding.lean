import Netscribe.Proofs.FloatLiteral

/-!
# Reading rounds to the nearest double

A quotient is scaled by a power of two to an integer of 53 bits at most, and this integer is rounded.
Scale and integer together are a word, also where the integer carries into the next binade, and the
quotient lies between the midpoints from this word to its neighbours. No other word has this property,
so a double that is nearest to the quotient is the one that is read.
-/

namespace Netscribe.Binary64

/-! ### Scale and integer -/

theorem scaleOf_spec (num den : Nat) (hnum : num ≠ 0) (hden : den ≠ 0) :
    num * unit < 2 ^ 53 * (den * 2 ^ scaleOf num den) ∧
      (scaleOf num den = 0 ∨ 2 ^ 52 * (den * 2 ^ scaleOf num den) ≤ num * unit) := by
  have hnumLow := Nat.log2_self_le hnum
  have hnumHigh := Nat.lt_log2_self (n := num)
  have hdenLow := Nat.log2_self_le hden
  have hdenHigh := Nat.lt_log2_self (n := den)
  unfold scaleOf unit
  generalize num.log2 = a at *
  generalize den.log2 = b at *
  generalize 1074 = k
  simp only [Nat.pow_eq]
  generalize hguess : a + k - b - 52 = guess
  -- the numerator is below the power after its own, which the guess reaches
  have hhigh : num * 2 ^ k < den * 2 ^ (guess + 53) :=
    calc num * 2 ^ k < 2 ^ (a + 1) * 2 ^ k := Nat.mul_lt_mul_of_pos_right hnumHigh (two_pow_pos k)
      _ = 2 ^ (a + 1 + k) := (Nat.pow_add ..).symm
      _ ≤ 2 ^ (b + (guess + 53)) := Nat.pow_le_pow_right (by decide) (by omega)
      _ = 2 ^ b * 2 ^ (guess + 53) := Nat.pow_add ..
      _ ≤ den * 2 ^ (guess + 53) := Nat.mul_le_mul_right _ hdenLow
  split
  case isFalse hreached =>
    rw [Nat.pow_add] at hhigh hreached
    exact ⟨by linarith, .inr (by linarith)⟩
  case isTrue hshort =>
    cases guess with
    | zero =>
      refine ⟨?_, .inl rfl⟩
      rw [Nat.pow_zero, Nat.mul_one]
      omega
    | succ g =>
      have hlow : den * 2 ^ (g + 52) ≤ num * 2 ^ k :=
        calc den * 2 ^ (g + 52) ≤ 2 ^ (b + 1) * 2 ^ (g + 52) := Nat.mul_le_mul_right _ hdenHigh.le
          _ = 2 ^ (b + 1 + (g + 52)) := (Nat.pow_add ..).symm
          _ = 2 ^ (a + k) := by congr 1; omega
          _ = 2 ^ a * 2 ^ k := Nat.pow_add ..
          _ ≤ num * 2 ^ k := Nat.mul_le_mul_right _ hnumLow
      rw [show g + 1 + 52 = g + 53 by omega, Nat.pow_add] at hshort
      rw [Nat.pow_add] at hlow
      rw [Nat.add_sub_cancel]
      exact ⟨by linarith, .inr (by linarith)⟩

/-- The nearest integer is at most half away, and even if there are two. -/
theorem roundDiv_spec (num den : Nat) (h : 0 < den) :
    (2 * num < (2 * roundDiv num den + 1) * den ∨
      2 * num = (2 * roundDiv num den + 1) * den ∧ roundDiv num den % 2 = 0) ∧
    (2 * roundDiv num den * den < 2 * num + den ∨
      2 * roundDiv num den * den = 2 * num + den ∧ roundDiv num den % 2 = 0) := by
  have hdiv := Nat.div_add_mod num den
  have hmod := Nat.mod_lt num h
  simp only [roundDiv]
  generalize num / den = q at *
  generalize num % den = r at *
  have hsucc : (q + 1) * den = q * den + den := Nat.succ_mul q den
  rw [Nat.mul_comm] at hdiv
  simp only [Nat.add_mul, Nat.mul_assoc, Nat.one_mul]
  generalize hp : q * den = p at *
  split
  · rw [hp]; omega
  · split
    · rw [hsucc]; omega
    · split
      · rw [hp]; omega
      · rw [hsucc]; omega

/-! ### Words -/

/-- The word that a quotient is rounded to: a carry out of the significand, too, is the next word. -/
def roundedWord (num den : Nat) : Nat :=
  scaleOf num den * 2 ^ 52 + roundDiv (num * unit) (den * 2 ^ scaleOf num den)

/-- A word rounds a number if the number lies between the midpoints to the two neighbours, where a
midpoint belongs to the even word. -/
def Rounds (w : Nat) (q : ℚ) : Prop :=
  (w = 0 ∨ Above w q (valueAt (w - 1) + valueAt w)) ∧ Below w q (valueAt w + valueAt (w + 1))

theorem Rounds.not_lt {v w : Nat} {q : ℚ} (hv : Rounds v q) (hw : Rounds w q) : ¬ v < w := by
  intro hlt
  have hdown : valueAt v ≤ valueAt (w - 1) := valueAt_strictMono.monotone (by omega)
  have hup : valueAt (v + 1) ≤ valueAt w := valueAt_strictMono.monotone hlt
  rcases hw.1 with rfl | hw | ⟨hw, hweven⟩
  · omega
  · rcases hv.2 with hv | ⟨hv, -⟩ <;> linarith
  · rcases hv.2 with hv | ⟨hv, hveven⟩
    · linarith
    -- both words are at the one midpoint, so they are neighbours, and not both are even
    · have hnext : valueAt (v + 1) = valueAt w := by linarith
      have := valueAt_strictMono.injective hnext
      omega

theorem Rounds.unique {v w : Nat} {q : ℚ} (hv : Rounds v q) (hw : Rounds w q) : v = w := by
  have hle := hv.not_lt hw
  have hge := hw.not_lt hv
  omega

theorem magnitudeAt_scaled (s m : Nat) (hfull : s = 0 ∨ 2 ^ 52 ≤ m) (hmost : m ≤ 2 ^ 53) :
    magnitudeAt (s * 2 ^ 52 + m) = m * 2 ^ s := by
  simp only [magnitudeAt, Nat.pow_eq]
  rcases Nat.lt_or_ge m (2 ^ 52) with hsub | hnormal
  · have hs : s = 0 := by omega
    subst hs
    have hfield : (0 * 2 ^ 52 + m) / 2 ^ 52 = 0 := by omega
    rw [if_pos hfield, hfield]
    omega
  · rcases hmost.lt_or_eq with hlt | rfl
    · have hfield : (s * 2 ^ 52 + m) / 2 ^ 52 = s + 1 := by omega
      have hfraction : 2 ^ 52 + (s * 2 ^ 52 + m) % 2 ^ 52 = m := by omega
      rw [hfield, if_neg (Nat.succ_ne_zero s), hfraction, Nat.add_sub_cancel]
    · have hfield : (s * 2 ^ 52 + 2 ^ 53) / 2 ^ 52 = s + 1 + 1 := by omega
      have hfraction : (s * 2 ^ 52 + 2 ^ 53) % 2 ^ 52 = 0 := by omega
      rw [hfield, if_neg (Nat.succ_ne_zero _), hfraction, Nat.add_sub_cancel, Nat.pow_succ]
      omega

theorem le_gap_scaled (s m : Nat) (hfull : s = 0 ∨ 2 ^ 52 ≤ m) : 2 ^ s ≤ gap (s * 2 ^ 52 + m) := by
  simp only [gap, Nat.pow_eq]
  exact Nat.pow_le_pow_right (by decide) (by omega)

/-- Only below the first word of a binade the gap is smaller than that of the binade. -/
theorem gap_pred_scaled (s m : Nat) (hmost : m ≤ 2 ^ 53) (hinner : s = 0 ∨ 2 ^ 52 < m) :
    gap (s * 2 ^ 52 + m - 1) = 2 ^ s := by
  simp only [gap, Nat.pow_eq]
  congr 1
  omega

section

variable (s m n den : Nat) (hfull : s = 0 ∨ 2 ^ 52 ≤ m) (hmost : m ≤ 2 ^ 53)

include hfull hmost

/-- A number that an integer is nearest to is not above the midpoint to the word after. -/
theorem scaled_below (h : 2 * n < (2 * m + 1) * (den * 2 ^ s) ∨
      2 * n = (2 * m + 1) * (den * 2 ^ s) ∧ m % 2 = 0) :
    let w := s * 2 ^ 52 + m
    2 * n < (magnitudeAt w + magnitudeAt (w + 1)) * den ∨
      2 * n = (magnitudeAt w + magnitudeAt (w + 1)) * den ∧ w % 2 = 0 := by
  intro w
  have hat : magnitudeAt w = m * 2 ^ s := magnitudeAt_scaled s m hfull hmost
  have hsum : (magnitudeAt w + magnitudeAt (w + 1)) * den =
      2 * (m * (den * 2 ^ s)) + gap w * den := by
    rw [magnitudeAt_succ, hat]
    ring
  have hgap : den * 2 ^ s ≤ gap w * den := by
    rw [Nat.mul_comm]
    exact Nat.mul_le_mul_right den (le_gap_scaled s m hfull)
  have heven : w % 2 = m % 2 := by omega
  rw [Nat.add_mul, Nat.mul_assoc, Nat.one_mul] at h
  rw [hsum, heven]
  omega

/-- Nor is it below the midpoint to the word before. -/
theorem scaled_above (hden : den ≠ 0) (hleast : s = 0 ∨ 2 ^ 52 * (den * 2 ^ s) ≤ n)
    (h : 2 * m * (den * 2 ^ s) < 2 * n + den * 2 ^ s ∨
      2 * m * (den * 2 ^ s) = 2 * n + den * 2 ^ s ∧ m % 2 = 0) (hword : 0 < s * 2 ^ 52 + m) :
    let w := s * 2 ^ 52 + m
    (magnitudeAt (w - 1) + magnitudeAt w) * den < 2 * n ∨
      2 * n = (magnitudeAt (w - 1) + magnitudeAt w) * den ∧ w % 2 = 0 := by
  intro w
  have hat : magnitudeAt w = m * 2 ^ s := magnitudeAt_scaled s m hfull hmost
  have hpred := magnitudeAt_succ (w - 1)
  rw [Nat.sub_add_cancel hword] at hpred
  have hsum : (magnitudeAt (w - 1) + magnitudeAt w) * den + gap (w - 1) * den =
      2 * (m * (den * 2 ^ s)) := by
    rw [← Nat.add_mul, Nat.add_right_comm, ← hpred, hat]
    ring
  have heven : w % 2 = m % 2 := by omega
  rw [heven]
  by_cases hinner : s = 0 ∨ 2 ^ 52 < m
  · have hgap : gap (w - 1) * den = den * 2 ^ s := by
      rw [gap_pred_scaled s m hmost hinner, Nat.mul_comm]
    rw [Nat.mul_assoc] at h
    omega
  -- the first word of a binade is not rounded up to, so the number is not below it
  · have hfirst : m = 2 ^ 52 := by omega
    have hgap : 0 < gap (w - 1) * den := Nat.mul_pos (gap_pos _) (Nat.pos_of_ne_zero hden)
    rw [← hfirst] at hleast
    omega

end

section

variable (num den : Nat) (hnum : num ≠ 0) (hden : den ≠ 0)

include hden in
/-- Midpoints are compared over the common denominator. -/
theorem midpoint_iff (w a b : Nat) :
    (Below w (num / den) (valueAt a + valueAt b) ↔
      2 * (num * unit) < (magnitudeAt a + magnitudeAt b) * den ∨
        2 * (num * unit) = (magnitudeAt a + magnitudeAt b) * den ∧ w % 2 = 0) ∧
    (Above w (num / den) (valueAt a + valueAt b) ↔
      (magnitudeAt a + magnitudeAt b) * den < 2 * (num * unit) ∨
        2 * (num * unit) = (magnitudeAt a + magnitudeAt b) * den ∧ w % 2 = 0) := by
  have hunit := unit_pos
  have hden' : (0 : ℚ) < den := Nat.cast_pos.mpr (Nat.pos_of_ne_zero hden)
  have hpos : (0 : ℚ) < unit * den := mul_pos hunit hden'
  have hpoint : 2 * (num / den : ℚ) * (unit * den) = (2 * (num * unit) : Nat) := by
    push_cast
    field_simp
  have hmiddle : (valueAt a + valueAt b) * (unit * den) =
      ((magnitudeAt a + magnitudeAt b) * den : Nat) := by
    unfold valueAt
    push_cast
    field_simp
  have hlt : 2 * (num / den : ℚ) < valueAt a + valueAt b ↔
      2 * (num * unit) < (magnitudeAt a + magnitudeAt b) * den := by
    rw [← mul_lt_mul_iff_left₀ hpos, hpoint, hmiddle, Nat.cast_lt]
  have hgt : valueAt a + valueAt b < 2 * (num / den : ℚ) ↔
      (magnitudeAt a + magnitudeAt b) * den < 2 * (num * unit) := by
    rw [← mul_lt_mul_iff_left₀ hpos, hpoint, hmiddle, Nat.cast_lt]
  have heq : 2 * (num / den : ℚ) = valueAt a + valueAt b ↔
      2 * (num * unit) = (magnitudeAt a + magnitudeAt b) * den := by
    rw [← mul_left_inj' hpos.ne', hpoint, hmiddle, Nat.cast_inj]
  simp only [Below, Above, hlt, hgt, heq, and_self]

include hnum hden

theorem roundDiv_scaled_bounds :
    (scaleOf num den = 0 ∨ 2 ^ 52 ≤ roundDiv (num * unit) (den * 2 ^ scaleOf num den)) ∧
      roundDiv (num * unit) (den * 2 ^ scaleOf num den) ≤ 2 ^ 53 := by
  obtain ⟨hmost, hleast⟩ := scaleOf_spec num den hnum hden
  have hpos : 0 < den * 2 ^ scaleOf num den :=
    Nat.mul_pos (Nat.pos_of_ne_zero hden) (two_pow_pos _)
  obtain ⟨hbelow, habove⟩ := roundDiv_spec (num * unit) _ hpos
  generalize den * 2 ^ scaleOf num den = d at *
  generalize roundDiv (num * unit) d = m at *
  generalize num * unit = n at *
  constructor
  · refine hleast.imp_right fun hleast => ?_
    by_contra hless
    have := Nat.mul_le_mul_right d (show 2 * m + 1 + 1 ≤ 2 ^ 53 by omega)
    rw [Nat.add_mul (2 * m + 1)] at this
    omega
  · by_contra hmore
    have := Nat.mul_le_mul_right d (show 2 ^ 54 + 2 ≤ 2 * m by omega)
    rw [Nat.add_mul] at this
    omega

theorem rounds_roundedWord : Rounds (roundedWord num den) (num / den) := by
  obtain ⟨-, hleast⟩ := scaleOf_spec num den hnum hden
  have hpos : 0 < den * 2 ^ scaleOf num den :=
    Nat.mul_pos (Nat.pos_of_ne_zero hden) (two_pow_pos _)
  obtain ⟨hbelow, habove⟩ := roundDiv_spec (num * unit) _ hpos
  obtain ⟨hfull, hmost⟩ := roundDiv_scaled_bounds num den hnum hden
  constructor
  · rcases Nat.eq_zero_or_pos (roundedWord num den) with hzero | hword
    · exact .inl hzero
    · refine .inr ((midpoint_iff num den hden _ _ _).2.mpr ?_)
      exact scaled_above _ _ _ _ hfull hmost hden hleast habove hword
  · exact (midpoint_iff num den hden _ _ _).1.mpr (scaled_below _ _ _ _ hfull hmost hbelow)

end

/-! ### Quotients -/

theorem ofParts_eq (x : Binary64) : ofParts x.negative x.field x.fraction = x := by
  cases x with
  | mk bits =>
    have hbits := bits.toNat_lt
    refine congrArg Binary64.mk (UInt64.toNat_inj.mp ?_)
    simp only [negative, field, fraction, Nat.pow_eq, UInt64.toNat_ofNat', decide_eq_true_eq]
    split <;> omega

theorem pack?_eq_some (x : Binary64) (m s : Nat) (hfinite : x.isFinite = true)
    (hfull : s = 0 ∨ 2 ^ 52 ≤ m) (hmost : m ≤ 2 ^ 53) (hword : x.word = s * 2 ^ 52 + m) :
    pack? x.negative m s = some x := by
  have hlast := (isFinite_iff x).mp hfinite
  have hfield := field_eq x
  have hfraction := fraction_eq x
  rw [hword] at hlast hfield hfraction
  have hparts (field fraction : Nat) (hf : field = x.field) (hg : fraction = x.fraction) :
      (if field < 2047 then some (ofParts x.negative field fraction) else none) = some x := by
    simp only [lastWord, Nat.pow_eq] at hlast hfield
    rw [hf, hg, if_pos (by omega), ofParts_eq]
  unfold pack?
  -- with the powers of two as names no comparison is evaluated
  generalize hcarry : Nat.pow 2 53 = carry
  generalize hhidden : Nat.pow 2 52 = hidden at hfield hfraction ⊢
  rw [Nat.pow_eq] at hcarry hhidden
  by_cases hm : m = carry
  · rw [if_pos hm]
    refine hparts _ _ ?_ ?_
    · rw [if_neg (Nat.lt_irrefl _)]
      subst hcarry hhidden
      omega
    · rw [Nat.mod_self]
      subst hcarry hhidden
      omega
  · rw [if_neg hm]
    refine hparts _ _ ?_ ?_
    · split <;> subst hcarry hhidden <;> omega
    · subst hcarry hhidden
      omega

/-- A number that is nearest to a quotient is what the quotient is rounded to. -/
theorem ofRatio?_eq_some (x : Binary64) (num den : Nat) (hnum : num ≠ 0) (hden : den ≠ 0)
    (hfinite : x.isFinite = true) (hzero : x.isZero = false)
    (h : x.Nearest x.negative (num / den)) : ofRatio? x.negative num den = some x := by
  obtain ⟨habove, hbelow⟩ := (nearest_iff x _ hfinite hzero).mp h
  have hword : x.word = roundedWord num den :=
    Rounds.unique ⟨.inr habove, hbelow⟩ (rounds_roundedWord num den hnum hden)
  obtain ⟨hfull, hmost⟩ := roundDiv_scaled_bounds num den hnum hden
  rw [ofRatio?, if_neg hnum]
  exact pack?_eq_some x _ _ hfinite hfull hmost hword

theorem zero_eq (x : Binary64) (h : x.isZero = true) : zero x.negative = x := by
  refine ext_word _ _ ?_ ?_
  · cases x.negative <;> decide
  · rw [(isZero_iff x).mp h]
    cases x.negative <;> decide

/-- A number that rounds to a finite one that is not zero is neither too small nor too large. -/
theorem Nearest.bounds {q : ℚ} {x : Binary64} (h : x.Nearest x.negative q)
    (hfinite : x.isFinite = true) (hzero : x.isZero = false) :
    valueAt 1 ≤ 2 * q ∧ q ≤ valueAt lastWord := by
  obtain ⟨habove, hbelow⟩ := (nearest_iff x _ hfinite hzero).mp h
  have hpos := word_pos x hzero
  have hlast := (isFinite_iff x).mp hfinite
  have hmono := valueAt_strictMono.monotone
  have hmagnitude : magnitudeAt 0 = 0 := by decide
  have hfirst : valueAt 0 = 0 := by rw [valueAt, hmagnitude, Nat.cast_zero, zero_div]
  have hdown := hmono (Nat.zero_le (x.word - 1))
  have hown : valueAt 1 ≤ valueAt x.word := hmono hpos
  have hown' : valueAt x.word ≤ valueAt lastWord := hmono hlast.le
  have hup : valueAt (x.word + 1) ≤ valueAt lastWord := hmono hlast
  constructor
  · rcases habove with h | ⟨h, -⟩ <;> linarith
  · rcases hbelow with h | ⟨h, -⟩ <;> linarith

end Netscribe.Binary64

/-! ### Decimals -/

namespace Netscribe.Decimal

open Binary64 (valueAt magnitudeAt lastWord unit)

/-- A decimal that rounds to a finite number other than zero is in the range that reading looks at. -/
theorem topExponent_bounds (x : Binary64) (d : Decimal) (hdigits : d.digits ≠ 0)
    (hfinite : x.isFinite = true) (hzero : x.isZero = false) (h : x.Nearest x.negative d.value) :
    -330 ≤ d.topExponent ∧ d.topExponent ≤ 310 := by
  obtain ⟨hleast, hmost⟩ := h.bounds hfinite hzero
  have hunit := Binary64.unit_pos
  constructor
  · rw [le_topExponent_iff d hdigits]
    have hpos := ten_zpow_pos (-330)
    have hfirst := power_le_value ⟨1⟩ (-330 + (1 : Nat)) (by decide +kernel)
    have hword : (⟨1⟩ : Binary64).word = 1 := by decide
    rw [Binary64.value_eq, hword, ten_zpow_add_nat, pow_one] at hfirst
    linarith
  · refine Int.le_of_lt_add_one (not_le.mp ?_)
    rw [le_topExponent_iff d hdigits, not_le]
    have hlarge : ((magnitudeAt lastWord : Nat) : ℚ) < ((10 ^ 311 * unit : Nat) : ℚ) :=
      Nat.cast_lt.mpr (by decide +kernel)
    rw [Nat.cast_mul, Nat.cast_pow, ← div_lt_iff₀ hunit] at hlarge
    exact hmost.trans_lt hlarge

/-- A decimal is read as the finite number that it rounds to; only the zero is read as one. -/
theorem toBinary64?_eq_some (x : Binary64) (d : Decimal) (hfinite : x.isFinite = true)
    (h : x.Nearest x.negative d.value) (hzero : x.isZero = true → d.digits = 0) :
    toBinary64? x.negative d = some x := by
  cases hx : x.isZero with
  | true => rw [toBinary64?, if_pos (hzero hx), Binary64.zero_eq x hx]
  | false =>
    have hdigits : d.digits ≠ 0 := by
      intro h0
      refine h.ne_zero hx ?_
      rw [value, h0, Nat.cast_zero, zero_mul]
    obtain ⟨hlow, hhigh⟩ := topExponent_bounds x d hdigits hfinite hx h
    obtain ⟨hp, hq⟩ := powerOfTen_pos d.exponent
    have hratio : d.value =
        (d.digits * (powerOfTen d.exponent).1 : Nat) / (powerOfTen d.exponent).2 := by
      rw [eq_div_iff (Nat.cast_ne_zero.mpr hq.ne'), Nat.cast_mul, powerOfTen_eq, value]
      ring
    rw [hratio] at h
    rw [toBinary64?, if_neg hdigits, if_neg (by omega), if_neg (by omega)]
    exact Binary64.ofRatio?_eq_some x _ _ (Nat.mul_ne_zero hdigits hp.ne') hq.ne' hfinite hx h

end Netscribe.Decimal
