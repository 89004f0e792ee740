import Mathlib.Algebra.Order.Field.Power
import Mathlib.Tactic.NormNum
import Netscribe.Proofs.Naming
import Netscribe.Proofs.Nearest

/-!
# The fewest digits

`shortest` tries the grids of one, two, … seventeen digits. On one grid it is enough to try the two
neighbours of the value, because the interval is convex. The grid of seventeen digits is finer than
the interval is wide, so it is hit. A decimal in the interval that is not on a grid has the first
power of ten of the value between itself and the value, and that power is on every grid; so no
decimal in the interval has fewer digits than the first hit.
-/

namespace Netscribe.Decimal

def value (d : Decimal) : ℚ := d.digits * 10 ^ d.exponent

/-- The number of digits without the zeros at the end. -/
def significant (d : Decimal) : Nat := ((decimalDigits d.digits).reverse.dropWhile (· = '0')).length

/-- No zero is at the end of the digits, and the zero has no exponent. -/
def Canonical (d : Decimal) : Prop := d = ⟨0, 0⟩ ∨ d.digits % 10 ≠ 0

theorem ten_zpow_pos (k : Int) : (0 : ℚ) < 10 ^ k := zpow_pos (by norm_num) k

theorem ten_zpow_add_nat (k : Int) (n : Nat) : (10 : ℚ) ^ (k + n) = 10 ^ n * 10 ^ k := by
  rw [zpow_add₀ (by norm_num), zpow_natCast, mul_comm]

/-- The powers of ten around the first digit, on the grid of `n` digits. -/
theorem ten_zpow_grid (top : Int) (n : Nat) (h : 0 < n) :
    (10 : ℚ) ^ top = (10 ^ (n - 1) : Nat) * 10 ^ (top + 1 - n) ∧
      (10 : ℚ) ^ (top + 1) = (10 ^ n : Nat) * 10 ^ (top + 1 - n) := by
  rw [Nat.cast_pow, Nat.cast_pow, Nat.cast_ofNat, ← ten_zpow_add_nat, ← ten_zpow_add_nat]
  constructor
  · congr 1
    omega
  · congr 1
    omega

theorem value_shift (m : Nat) (k : Int) (n : Nat) : value ⟨m, k + n⟩ = value ⟨m * 10 ^ n, k⟩ := by
  simp only [value, ten_zpow_add_nat]
  push_cast
  ring

theorem value_injective (a b : Nat) (k : Int) (h : value ⟨a, k⟩ = value ⟨b, k⟩) : a = b :=
  Nat.cast_injective (mul_right_cancel₀ (ten_zpow_pos k).ne' h)

/-! ### Points of a grid -/

theorem powerOfTen_pos (k : Int) : 0 < (powerOfTen k).1 ∧ 0 < (powerOfTen k).2 := by
  simp only [powerOfTen, Nat.pow_eq]
  split <;> exact ⟨by positivity, by positivity⟩

theorem powerOfTen_eq (k : Int) : ((powerOfTen k).1 : ℚ) = 10 ^ k * (powerOfTen k).2 := by
  simp only [powerOfTen, Nat.pow_eq]
  split
  case isTrue h =>
    push_cast
    rw [← zpow_natCast, Int.toNat_of_nonneg h, mul_one]
  case isFalse h =>
    push_cast
    rw [← zpow_natCast, Int.toNat_of_nonneg (by omega), ← zpow_add₀ (by norm_num), add_neg_cancel,
      zpow_zero]

theorem inside_iff (i : Interval) (d : Decimal) : inside i d = true ↔ i.Holds d.value := by
  have hq : (0 : ℚ) < (powerOfTen d.exponent).2 := Nat.cast_pos.mpr (powerOfTen_pos d.exponent).2
  have hpoint : ((d.digits * (powerOfTen d.exponent).1 * i.denominator : Nat) : ℚ) =
      d.value * i.denominator * (powerOfTen d.exponent).2 := by
    push_cast
    rw [powerOfTen_eq, value]
    ring
  have hlt (a : Nat) : a * (powerOfTen d.exponent).2 < d.digits * (powerOfTen d.exponent).1 *
      i.denominator ↔ (a : ℚ) < d.value * i.denominator := by
    rw [← mul_lt_mul_iff_left₀ hq, ← hpoint, ← Nat.cast_mul, Nat.cast_lt]
  have hgt (a : Nat) : d.digits * (powerOfTen d.exponent).1 * i.denominator <
      a * (powerOfTen d.exponent).2 ↔ d.value * i.denominator < (a : ℚ) := by
    rw [← mul_lt_mul_iff_left₀ hq, ← hpoint, ← Nat.cast_mul, Nat.cast_lt]
  simp only [inside, Interval.Holds]
  split
  all_goals
    simp only [Bool.and_eq_true, decide_eq_true_eq, ← not_lt, hlt, hgt]

/-- The value that an interval is around. -/
def Interval.center (i : Interval) : ℚ := i.value / i.denominator

theorem Interval.Holds.between {i : Interval} {a b c : ℚ} (ha : i.Holds a) (hc : i.Holds c)
    (hab : a ≤ b) (hbc : b ≤ c) : i.Holds b := by
  have hden : (0 : ℚ) ≤ i.denominator := Nat.cast_nonneg _
  have hab' := mul_le_mul_of_nonneg_right hab hden
  have hbc' := mul_le_mul_of_nonneg_right hbc hden
  unfold Interval.Holds at ha hc ⊢
  split
  case isTrue hclosed =>
    rw [if_pos hclosed] at ha hc
    exact ⟨ha.1.trans hab', hbc'.trans hc.2⟩
  case isFalse hopen =>
    rw [if_neg hopen] at ha hc
    exact ⟨ha.1.trans_le hab', hbc'.trans_lt hc.2⟩

theorem Interval.Holds.le_low {i : Interval} {a c : ℚ} (hc : i.Holds c) (hac : a ≤ c)
    (ha : ¬ i.Holds a) : a * i.denominator ≤ i.low := by
  have hden : (0 : ℚ) ≤ i.denominator := Nat.cast_nonneg _
  have hac' := mul_le_mul_of_nonneg_right hac hden
  by_contra hlow
  refine ha ?_
  unfold Interval.Holds at hc ⊢
  split
  case isTrue hclosed =>
    rw [if_pos hclosed] at hc
    exact ⟨(not_le.mp hlow).le, hac'.trans hc.2⟩
  case isFalse hopen =>
    rw [if_neg hopen] at hc
    exact ⟨not_le.mp hlow, hac'.trans_lt hc.2⟩

theorem Interval.Holds.high_le {i : Interval} {a c : ℚ} (hc : i.Holds c) (hca : c ≤ a)
    (ha : ¬ i.Holds a) : i.high ≤ a * i.denominator := by
  have hden : (0 : ℚ) ≤ i.denominator := Nat.cast_nonneg _
  have hca' := mul_le_mul_of_nonneg_right hca hden
  by_contra hhigh
  refine ha ?_
  unfold Interval.Holds at hc ⊢
  split
  case isTrue hclosed =>
    rw [if_pos hclosed] at hc
    exact ⟨hc.1.trans hca', (not_le.mp hhigh).le⟩
  case isFalse hopen =>
    rw [if_neg hopen] at hc
    exact ⟨hc.1.trans_le hca', not_le.mp hhigh⟩

/-- The number of the grid point at or below the center. -/
def floorOn (i : Interval) (k : Int) : Nat :=
  i.value * (powerOfTen k).2 / (i.denominator * (powerOfTen k).1)

theorem floorOn_bounds (i : Interval) (k : Int) (hden : 0 < i.denominator) :
    (floorOn i k : ℚ) * 10 ^ k ≤ i.center ∧ i.center < (floorOn i k + 1 : Nat) * 10 ^ k := by
  obtain ⟨hp, hq⟩ := powerOfTen_pos k
  have hq' : (0 : ℚ) < (powerOfTen k).2 := Nat.cast_pos.mpr hq
  have hden' : (0 : ℚ) < i.denominator := Nat.cast_pos.mpr hden
  have hdiv : (floorOn i k * (i.denominator * (powerOfTen k).1) : ℚ) ≤
      i.value * (powerOfTen k).2 := by
    exact_mod_cast Nat.div_mul_le_self (i.value * (powerOfTen k).2) (i.denominator * (powerOfTen k).1)
  have hlt : (i.value * (powerOfTen k).2 : ℚ) <
      i.denominator * (powerOfTen k).1 * (floorOn i k + 1) := by
    exact_mod_cast Nat.lt_mul_div_succ (i.value * (powerOfTen k).2) (Nat.mul_pos hden hp)
  rw [powerOfTen_eq] at hdiv hlt
  rw [Interval.center, le_div_iff₀ hden', div_lt_iff₀ hden']
  constructor
  · refine le_of_mul_le_mul_right ?_ hq'
    linarith
  · refine lt_of_mul_lt_mul_right ?_ hq'.le
    push_cast
    linarith

/-- A grid gives one of the two neighbours of the center that lies in the interval, and nothing if
neither does. -/
theorem onGrid?_cases (i : Interval) (k : Int) :
    (∃ d, onGrid? i k = some d ∧ inside i d = true ∧
      (d = ⟨floorOn i k, k⟩ ∨ d = ⟨floorOn i k + 1, k⟩)) ∨
    (onGrid? i k = none ∧ inside i ⟨floorOn i k, k⟩ = false ∧
      inside i ⟨floorOn i k + 1, k⟩ = false) := by
  have hfloor : i.value * (powerOfTen k).2 / (i.denominator * (powerOfTen k).1) = floorOn i k := rfl
  simp only [onGrid?, hfloor]
  cases hdown : inside i ⟨floorOn i k, k⟩ <;> cases hup : inside i ⟨floorOn i k + 1, k⟩
  · exact .inr ⟨rfl, rfl, rfl⟩
  · exact .inl ⟨_, rfl, hup, .inr rfl⟩
  · exact .inl ⟨_, rfl, hdown, .inl rfl⟩
  · left
    simp only
    split
    · exact ⟨_, rfl, hdown, .inl rfl⟩
    · split
      · exact ⟨_, rfl, hup, .inr rfl⟩
      · split
        · exact ⟨_, rfl, hdown, .inl rfl⟩
        · exact ⟨_, rfl, hup, .inr rfl⟩

theorem onGrid?_some (i : Interval) (k : Int) (d : Decimal) (h : onGrid? i k = some d) :
    i.Holds d.value ∧ d.exponent = k ∧ (d.digits = floorOn i k ∨ d.digits = floorOn i k + 1) := by
  rcases onGrid?_cases i k with ⟨d', hd', hinside, hpick⟩ | ⟨hnone, -, -⟩
  · cases hd'.symm.trans h
    refine ⟨(inside_iff i d).mp hinside, ?_⟩
    rcases hpick with rfl | rfl
    · exact ⟨rfl, .inl rfl⟩
    · exact ⟨rfl, .inr rfl⟩
  · cases hnone.symm.trans h

/-- A point of the grid in the interval lies on one side of the center, and then the neighbour on
that side is in the interval as well. -/
theorem onGrid?_none (i : Interval) (k : Int) (hden : 0 < i.denominator) (hcenter : i.Holds i.center)
    (h : onGrid? i k = none) (m : Nat) : ¬ i.Holds (m * 10 ^ k) := by
  obtain ⟨hdown, hup⟩ := floorOn_bounds i k hden
  have hneither : ¬ i.Holds (floorOn i k * 10 ^ k) ∧ ¬ i.Holds ((floorOn i k + 1 : Nat) * 10 ^ k) := by
    rcases onGrid?_cases i k with ⟨d, hd, -, -⟩ | ⟨-, hout, hout'⟩
    · cases hd.symm.trans h
    · have hpoint (n : Nat) : i.Holds (n * 10 ^ k) ↔ inside i ⟨n, k⟩ = true :=
        (inside_iff i ⟨n, k⟩).symm
      rw [hpoint, hpoint, hout, hout']
      exact ⟨Bool.false_ne_true, Bool.false_ne_true⟩
  intro hm
  rcases Nat.lt_or_ge (floorOn i k) m with hlt | hle
  · have hbeyond : ((floorOn i k + 1 : Nat) : ℚ) * 10 ^ k ≤ m * 10 ^ k :=
      mul_le_mul_of_nonneg_right (Nat.cast_le.mpr hlt) (ten_zpow_pos k).le
    exact hneither.2 (hcenter.between hm hup.le hbeyond)
  · have hbefore : (m : ℚ) * 10 ^ k ≤ floorOn i k * 10 ^ k :=
      mul_le_mul_of_nonneg_right (Nat.cast_le.mpr hle) (ten_zpow_pos k).le
    exact hneither.1 (hm.between hcenter hbefore hdown)

/-! ### The first digit -/

theorem decimalDigits_bounds (n : Nat) (h : 0 < n) :
    10 ^ ((decimalDigits n).length - 1) ≤ n ∧ n < 10 ^ (decimalDigits n).length := by
  have hpos : 0 < (decimalDigits n).length := Nat.length_toDigits_pos
  have hlength (k : Nat) (hk : 0 < k) : (decimalDigits n).length ≤ k ↔ n < 10 ^ k :=
    Nat.length_toDigits_le_iff (by decide) hk
  refine ⟨?_, (hlength _ hpos).mp (le_refl _)⟩
  by_cases hone : (decimalDigits n).length = 1
  · rw [hone]
    exact h
  · have hshorter := hlength ((decimalDigits n).length - 1) (by omega)
    omega

/-- The first digit stands at the power of ten at or below the quotient. -/
theorem leading_bounds (value denominator : Nat) (hvalue : 0 < value) (hden : 0 < denominator) :
    (10 : ℚ) ^ leading value denominator ≤ value / denominator ∧
      (value / denominator : ℚ) < 10 ^ (leading value denominator + 1) := by
  have hvalue' : (0 : ℚ) < value := Nat.cast_pos.mpr hvalue
  have hden' : (0 : ℚ) < denominator := Nat.cast_pos.mpr hden
  rw [le_div_iff₀ hden', div_lt_iff₀ hden', leading]
  split
  case isTrue hle =>
    obtain ⟨hlow, hhigh⟩ := decimalDigits_bounds (value / denominator) (Nat.div_pos hle hden)
    generalize hc : (decimalDigits (value / denominator)).length = c at hlow hhigh ⊢
    have hpos : 0 < c := by
      rw [← hc]
      exact Nat.length_toDigits_pos
    rw [Nat.le_div_iff_mul_le hden] at hlow
    rw [Nat.div_lt_iff_lt_mul hden] at hhigh
    rw [show (c : Int) - 1 = ((c - 1 : Nat) : Int) by omega,
      show ((c - 1 : Nat) : Int) + 1 = (c : Int) by omega, zpow_natCast, zpow_natCast]
    exact ⟨by exact_mod_cast hlow, by exact_mod_cast hhigh⟩
  case isFalse hlt =>
    obtain ⟨hlow, hhigh⟩ := decimalDigits_bounds (denominator / value) (Nat.div_pos (by omega) hvalue)
    simp only [Nat.pow_eq]
    generalize hc : (decimalDigits (denominator / value)).length = c at hlow hhigh ⊢
    have hpos : 0 < c := by
      rw [← hc]
      exact Nat.length_toDigits_pos
    rw [Nat.le_div_iff_mul_le hvalue] at hlow
    rw [Nat.div_lt_iff_lt_mul hvalue] at hhigh
    have hlow' : (10 ^ (c - 1) * value : ℚ) ≤ denominator := by exact_mod_cast hlow
    have hpow (n : Nat) : (0 : ℚ) < 10 ^ n := by positivity
    -- the quotient of the inverse has the same number of digits at a power of ten and above it
    split
    case isTrue hexact =>
      have hexact' : (denominator : ℚ) ≤ value * 10 ^ (c - 1) := by exact_mod_cast hexact
      rw [show -((c : Int) - 1) = -((c - 1 : Nat) : Int) by omega, zpow_add₀ (by norm_num), zpow_neg,
        zpow_natCast, zpow_one, inv_mul_le_iff₀ (hpow _), mul_assoc, lt_inv_mul_iff₀ (hpow _)]
      exact ⟨by linarith, by linarith⟩
    case isFalse hless =>
      have hless' : (value * 10 ^ (c - 1) : ℚ) < denominator := by exact_mod_cast not_le.mp hless
      rw [show -(c : Int) + 1 = -((c - 1 : Nat) : Int) by omega, zpow_neg, zpow_neg, zpow_natCast,
        zpow_natCast, inv_mul_le_iff₀ (hpow _), lt_inv_mul_iff₀ (hpow _)]
      exact ⟨by exact_mod_cast hhigh.le, by linarith⟩

/-! ### The first hit -/

/-- If a grid is hit, `firstHit` gives the hit on the first such grid. -/
theorem firstHit_spec (i : Interval) (top : Int) (fuel n m : Nat) (hn : n ≤ m) (hm : m < n + fuel)
    (hit : (onGrid? i (top + 1 - m)).isSome) :
    ∃ j, n ≤ j ∧ j ≤ m ∧ onGrid? i (top + 1 - j) = some (firstHit i top fuel n) ∧
      ∀ l, n ≤ l → (onGrid? i (top + 1 - l)).isSome → j ≤ l := by
  induction fuel generalizing n with
  | zero => omega
  | succ fuel ih =>
    rw [firstHit]
    cases hgrid : onGrid? i (top + 1 - n) with
    | some d => exact ⟨n, le_refl n, hn, hgrid, fun l hl _ => hl⟩
    | none =>
      have hne : ∀ l : Nat, (onGrid? i (top + 1 - l)).isSome → n ≠ l := by
        rintro l hl rfl
        rw [hgrid] at hl
        cases hl
      have hlater := hne m hit
      obtain ⟨j, hnj, hjm, hj, hfirst⟩ := ih (n + 1) (by omega) (by omega)
      refine ⟨j, by omega, hjm, hj, fun l hl hsome => hfirst l ?_ hsome⟩
      have := hne l hsome
      omega

/-- A grid that is finer than the interval is wide has a point in it. -/
theorem onGrid?_isSome_of_fine (i : Interval) (k : Int) (hden : 0 < i.denominator)
    (hcenter : i.Holds i.center) (hfine : 10 ^ k * (i.denominator : ℚ) < i.high - i.low) :
    (onGrid? i k).isSome := by
  by_contra hnone
  rw [Option.not_isSome_iff_eq_none] at hnone
  obtain ⟨hdown, hup⟩ := floorOn_bounds i k hden
  have hlow := hcenter.le_low hdown (onGrid?_none i k hden hcenter hnone _)
  have hhigh := hcenter.high_le hup.le (onGrid?_none i k hden hcenter hnone _)
  push_cast at hhigh
  linarith

/-! ### Significant digits -/

/-- A number that some decimal with at most `n` digits denotes. -/
def FitsIn (n : Nat) (q : ℚ) : Prop := ∃ m e, m < 10 ^ n ∧ q = value ⟨m, e⟩

theorem FitsIn.mono {n n' : Nat} {q : ℚ} (h : FitsIn n q) (hle : n ≤ n') : FitsIn n' q := by
  obtain ⟨m, e, hm, rfl⟩ := h
  exact ⟨m, e, hm.trans_le (Nat.pow_le_pow_right (by decide) hle), rfl⟩

theorem decimalDigits_ten_mul (n : Nat) (h : 0 < n) :
    decimalDigits (10 * n) = decimalDigits n ++ ['0'] := by
  have happend := Nat.toDigits_append_toDigits (show 1 < 10 by decide) h (show 0 < 10 by decide)
  rw [Nat.add_zero] at happend
  exact happend.symm

theorem significant_ten_mul (n : Nat) (e e' : Int) (h : 0 < n) :
    significant ⟨10 * n, e⟩ = significant ⟨n, e'⟩ := by
  simp only [significant, decimalDigits_ten_mul n h, List.reverse_append, List.reverse_cons,
    List.reverse_nil, List.nil_append, List.singleton_append, List.dropWhile_cons, decide_true,
    if_true]

theorem significant_of_mod (d : Decimal) (h : d.digits % 10 ≠ 0) :
    d.significant = (decimalDigits d.digits).length := by
  have hlast : (d.digits % 10).digitChar ≠ '0' := fun h0 => h (Nat.digitChar_eq_zero.mp h0)
  have hdigits : ∃ ds, decimalDigits d.digits = ds ++ [(d.digits % 10).digitChar] := by
    rw [decimalDigits, Nat.toDigits_eq_if (by decide)]
    split
    case isTrue hlt => exact ⟨[], by rw [Nat.mod_eq_of_lt hlt, List.nil_append]⟩
    case isFalse => exact ⟨_, rfl⟩
  obtain ⟨ds, hds⟩ := hdigits
  simp only [significant, hds, List.reverse_append, List.reverse_cons, List.reverse_nil,
    List.nil_append, List.singleton_append, List.dropWhile_cons, decide_eq_true_eq, hlast, if_false,
    List.length_cons, List.length_reverse, List.length_append, List.length_nil]

/-- Where the last digit is no zero, a decimal with the same value has these digits and perhaps zeros
after them. -/
theorem digits_le_of_value_eq (d : Decimal) (m : Nat) (e : Int) (hlast : d.digits % 10 ≠ 0)
    (h : d.value = value ⟨m, e⟩) : d.digits ≤ m := by
  rcases le_or_gt e d.exponent with hle | hlt
  · obtain ⟨n, hn⟩ := Int.eq_ofNat_of_zero_le (show 0 ≤ d.exponent - e by omega)
    have hshift := value_shift d.digits e n
    rw [show e + n = d.exponent by omega] at hshift
    have hm := value_injective _ _ e (hshift.symm.trans h)
    rw [← hm]
    exact Nat.le_mul_of_pos_right _ (by positivity)
  · obtain ⟨n, hn⟩ := Int.eq_ofNat_of_zero_le (show 0 ≤ e - d.exponent - 1 by omega)
    have hshift := value_shift m d.exponent (n + 1)
    rw [show d.exponent + (n + 1 : Nat) = e by omega] at hshift
    have hd : d.digits = m * 10 ^ (n + 1) := value_injective _ _ d.exponent (h.trans hshift)
    rw [hd, pow_succ, ← Nat.mul_assoc] at hlast
    exact absurd (Nat.mul_mod_left _ _) hlast

/-- The digits that count are the fewest of any decimal with the same value. -/
theorem significant_le_iff (d : Decimal) (n : Nat) : d.significant ≤ n ↔ FitsIn n d.value := by
  obtain ⟨m, e⟩ := d
  induction m using Nat.strongRecOn generalizing e with
  | ind m ih =>
    by_cases hzero : m = 0
    · subst hzero
      have hnone : significant ⟨0, e⟩ = 0 := by
        rw [significant, decimalDigits, Nat.toDigits_zero]
        rfl
      rw [hnone]
      exact ⟨fun _ => ⟨0, e, by positivity, rfl⟩, fun _ => Nat.zero_le n⟩
    by_cases hlast : m % 10 = 0
    -- a zero at the end counts on neither side
    · have hm : m = 10 * (m / 10) := by omega
      have hvalue := value_shift (m / 10) e 1
      rw [pow_one, Nat.mul_comm, ← hm] at hvalue
      rw [← hvalue, ← ih (m / 10) (by omega)]
      nth_rewrite 1 [hm]
      rw [significant_ten_mul (m / 10) e _ (by omega)]
    · rw [significant_of_mod ⟨m, e⟩ hlast]
      constructor
      · intro hle
        have hbound := (decimalDigits_bounds m (by omega)).2
        exact ⟨m, e, hbound.trans_le (Nat.pow_le_pow_right (by decide) hle), rfl⟩
      · rintro ⟨m', e', hlt, heq⟩
        have hle := digits_le_of_value_eq ⟨m, e⟩ m' e' hlast heq
        have hbound := (decimalDigits_bounds m (by omega)).1
        by_contra hmore
        have hpow : 10 ^ n ≤ 10 ^ ((decimalDigits m).length - 1) :=
          Nat.pow_le_pow_right (by decide) (by simp only at hmore; omega)
        simp only at hle
        omega

/-! ### The shortest decimal -/

theorem dropZeros_spec (fuel : Nat) (d : Decimal) (hpos : d.digits ≠ 0)
    (hfuel : d.digits < 10 ^ (fuel + 1)) :
    (dropZeros fuel d).value = d.value ∧ (dropZeros fuel d).digits % 10 ≠ 0 := by
  induction fuel generalizing d with
  | zero =>
    refine ⟨rfl, ?_⟩
    rw [dropZeros]
    omega
  | succ fuel ih =>
    rw [dropZeros]
    split
    case isTrue hzero =>
      obtain ⟨hvalue, hmod⟩ := ih ⟨d.digits / 10, d.exponent + 1⟩ (by simp only; omega)
        (by simp only; rw [pow_succ] at hfuel; omega)
      have hshift := value_shift (d.digits / 10) d.exponent 1
      rw [pow_one, show d.digits / 10 * 10 = d.digits by omega] at hshift
      exact ⟨hvalue.trans hshift, hmod⟩
    case isFalse hlast => exact ⟨rfl, by omega⟩

section

variable (i : Interval) (top : Int) (hden : 0 < i.denominator) (hlow : 10 ^ top ≤ i.center)

include hden hlow

/-- A decimal in the interval that is not on the grid of its number of digits is below `10 ^ top`,
which then is in the interval, too. -/
theorem exists_hit (hcenter : i.Holds i.center) (n : Nat) (q : ℚ) (hn : 0 < n) (hfits : FitsIn n q)
    (hq : i.Holds q) : ∃ m, 0 < m ∧ m ≤ n ∧ (onGrid? i (top + 1 - m)).isSome := by
  obtain ⟨m, e, hm, rfl⟩ := hfits
  rcases le_or_gt (top + 1 - n) e with hle | hlt
  -- coarser than the grid, so on it
  · refine ⟨n, hn, le_refl n, Option.isSome_iff_ne_none.mpr fun hnone => ?_⟩
    obtain ⟨z, hz⟩ := Int.eq_ofNat_of_zero_le (show 0 ≤ e - (top + 1 - n) by omega)
    rw [show e = top + 1 - n + z by omega, value_shift] at hq
    exact onGrid?_none i _ hden hcenter hnone _ hq
  · refine ⟨1, by omega, hn, Option.isSome_iff_ne_none.mpr fun hnone => ?_⟩
    rw [Nat.cast_one, add_sub_cancel_right] at hnone
    have hout := onGrid?_none i top hden hcenter hnone 1
    rw [Nat.cast_one, one_mul] at hout
    refine hout (hq.between hcenter ?_ hlow)
    calc value ⟨m, e⟩ ≤ (10 ^ n : Nat) * 10 ^ e :=
          mul_le_mul_of_nonneg_right (Nat.cast_le.mpr hm.le) (ten_zpow_pos e).le
      _ = 10 ^ (e + n) := by rw [ten_zpow_add_nat, Nat.cast_pow, Nat.cast_ofNat]
      _ ≤ 10 ^ top := zpow_le_zpow_right₀ (by norm_num) (by omega)

variable (hhigh : i.center < 10 ^ (top + 1))

include hhigh

/-- The neighbours of the center on the grid of `n` digits have `n` digits, but for a carry. -/
theorem onGrid?_digits (n : Nat) (d : Decimal) (hn : 0 < n)
    (h : onGrid? i (top + 1 - n) = some d) : 10 ^ (n - 1) ≤ d.digits ∧ d.digits ≤ 10 ^ n := by
  obtain ⟨-, -, hdigits⟩ := onGrid?_some i _ d h
  obtain ⟨hdown, hup⟩ := floorOn_bounds i (top + 1 - n) hden
  obtain ⟨htop, hnext⟩ := ten_zpow_grid top n hn
  have hstep := ten_zpow_pos (top + 1 - n)
  have hleast : 10 ^ (n - 1) < floorOn i (top + 1 - n) + 1 := by
    have := lt_of_mul_lt_mul_right (htop ▸ hlow.trans_lt hup) hstep.le
    exact_mod_cast this
  have hmost : floorOn i (top + 1 - n) < 10 ^ n := by
    have := lt_of_mul_lt_mul_right (hnext ▸ hdown.trans_lt hhigh) hstep.le
    exact_mod_cast this
  omega

theorem onGrid?_value (n : Nat) (d : Decimal) (hn : 0 < n) (h : onGrid? i (top + 1 - n) = some d) :
    10 ^ top ≤ d.value ∧ d.value ≤ 10 ^ (top + 1) := by
  obtain ⟨hleast, hmost⟩ := onGrid?_digits i top hden hlow hhigh n d hn h
  obtain ⟨-, hexponent, -⟩ := onGrid?_some i _ d h
  obtain ⟨htop, hnext⟩ := ten_zpow_grid top n hn
  have hstep := (ten_zpow_pos (top + 1 - n)).le
  rw [value, hexponent, htop, hnext]
  exact ⟨mul_le_mul_of_nonneg_right (Nat.cast_le.mpr hleast) hstep,
    mul_le_mul_of_nonneg_right (Nat.cast_le.mpr hmost) hstep⟩

theorem onGrid?_fitsIn (n : Nat) (d : Decimal) (hn : 0 < n)
    (h : onGrid? i (top + 1 - n) = some d) : FitsIn n d.value := by
  have hdigits := (onGrid?_digits i top hden hlow hhigh n d hn h).2
  rcases hdigits.lt_or_eq with hlt | heq
  · exact ⟨d.digits, d.exponent, hlt, rfl⟩
  · refine ⟨1, d.exponent + n, Nat.one_lt_pow (by omega) (by decide), ?_⟩
    rw [value_shift, Nat.one_mul, ← heq]

end

/-- A significand is less than `10 ^ 16`, so that the interval is wider than that part of its value. At
a power of two it is narrower, but there the significand is the least one. -/
theorem interval_wide (x : Binary64) :
    (interval x).value + (interval x).low * 10 ^ 16 < (interval x).high * 10 ^ 16 := by
  have hfraction : x.fraction < 2 ^ 52 := Nat.mod_lt _ (by decide)
  have hsignificand : 4 * x.significand + (4 * x.significand -
      (if x.fraction = 0 ∧ 1 < x.field then 1 else 2)) * 10 ^ 16 < (4 * x.significand + 2) * 10 ^ 16 := by
    simp only [Binary64.significand, Nat.pow_eq]
    split <;> split <;> omega
  have hscaled := Nat.mul_lt_mul_of_pos_right hsignificand (Binary64.two_pow_pos x.scale)
  simp only [interval]
  linarith

/-! ### The shortest decimal of a number -/

theorem interval_denominator_pos (x : Binary64) : 0 < (interval x).denominator :=
  Nat.mul_pos (by decide) (Nat.cast_pos.mp Binary64.unit_pos)

theorem interval_center (x : Binary64) : (interval x).center = x.value := by
  have hunit := Binary64.unit_pos
  rw [Interval.center, interval_value, Binary64.value]
  simp only [interval]
  push_cast
  field_simp

def top (x : Binary64) : Int := leading (interval x).value (interval x).denominator

theorem center_bounds (x : Binary64) (hzero : x.isZero = false) :
    10 ^ top x ≤ (interval x).center ∧ (interval x).center < 10 ^ (top x + 1) := by
  have hmagnitude := Binary64.magnitude_pos x hzero
  refine leading_bounds _ _ ?_ (interval_denominator_pos x)
  rw [interval_value]
  omega

section

variable (x : Binary64) (hfinite : x.isFinite = true) (hzero : x.isZero = false)

include hfinite hzero

theorem holds_center : (interval x).Holds (interval x).center := by
  rw [interval_center, ← nearest_iff_holds x _ hfinite hzero]
  exact Binary64.nearest_value x (Binary64.isNaN_of_isFinite x hfinite)

theorem seventeen_digits_hit : (onGrid? (interval x) (top x + 1 - (17 : Nat))).isSome := by
  refine onGrid?_isSome_of_fine _ _ (interval_denominator_pos x) (holds_center x hfinite hzero) ?_
  have hwide : ((interval x).value : ℚ) + (interval x).low * 10 ^ 16 < (interval x).high * 10 ^ 16 := by
    exact_mod_cast interval_wide x
  have hden : (0 : ℚ) < (interval x).denominator := Nat.cast_pos.mpr (interval_denominator_pos x)
  have htop := (center_bounds x hzero).1
  -- one step of the grid is a part of `10 ^ 16` of the first power of ten, so at most of the value
  rw [Interval.center, le_div_iff₀ hden,
    show top x = top x + 1 - (17 : Nat) + (16 : Nat) by omega, ten_zpow_add_nat] at htop
  linarith

/-- The shortest decimal is the hit on the first grid that is hit, and a decimal that rounds to the
number has no fewer digits than this grid. -/
theorem exists_first_hit : ∃ (n : Nat) (d : Decimal), 0 < n ∧ n ≤ 17 ∧
    onGrid? (interval x) (top x + 1 - n) = some d ∧ shortest x = dropZeros 17 d ∧
    ∀ d' : Decimal, x.Nearest x.negative d'.value → n ≤ d'.significant := by
  obtain ⟨n, hn, hn17, hhit, hfirst⟩ := firstHit_spec (interval x) (top x) 17 1 17 (by decide)
    (by decide) (seventeen_digits_hit x hfinite hzero)
  refine ⟨n, _, hn, hn17, hhit, ?_, fun d' hd' => ?_⟩
  · simp only [shortest, hzero, Bool.false_eq_true, if_false, top]
  · have hfits := (significant_le_iff d' d'.significant).mp (le_refl _)
    have hsome : 0 < d'.significant := by
      refine Nat.pos_of_ne_zero fun hnone => hd'.ne_zero hzero ?_
      rw [hnone] at hfits
      obtain ⟨m, e, hm, heq⟩ := hfits
      rw [heq, value, Nat.lt_one_iff.mp hm, Nat.cast_zero, zero_mul]
    have hholds := (nearest_iff_holds x _ hfinite hzero).mp hd'
    obtain ⟨m, hm, hle, hmhit⟩ := exists_hit _ _ (interval_denominator_pos x)
      (center_bounds x hzero).1 (holds_center x hfinite hzero) _ _ hsome hfits hholds
    exact (hfirst m hm hmhit).trans hle

/-- The shortest decimal rounds to the number, has no more digits than any decimal that does and no
zero at the end, and its first digit stands where that of the number does, but for a carry. -/
theorem shortest_spec : x.Nearest x.negative (shortest x).value ∧
    (∀ d : Decimal, x.Nearest x.negative d.value → FitsIn d.significant (shortest x).value) ∧
    (shortest x).digits % 10 ≠ 0 ∧
    10 ^ top x ≤ (shortest x).value ∧ (shortest x).value ≤ 10 ^ (top x + 1) := by
  obtain ⟨hlow, hhigh⟩ := center_bounds x hzero
  have hden := interval_denominator_pos x
  obtain ⟨n, d, hn, hn17, hhit, hshortest, hleast⟩ := exists_first_hit x hfinite hzero
  have hdigits := onGrid?_digits _ _ hden hlow hhigh n d hn hhit
  have hpos : 0 < 10 ^ (n - 1) := Nat.pow_pos (by decide)
  have hmost : 10 ^ n ≤ 10 ^ 17 := Nat.pow_le_pow_right (by decide) hn17
  obtain ⟨hvalue, hlast⟩ := dropZeros_spec 17 d (by omega) (by omega)
  rw [hshortest, hvalue]
  refine ⟨?_, fun d' hd' => ?_, hlast, onGrid?_value _ _ hden hlow hhigh n d hn hhit⟩
  · exact (nearest_iff_holds x _ hfinite hzero).mpr (onGrid?_some _ _ d hhit).1
  · exact (onGrid?_fitsIn _ _ hden hlow hhigh n d hn hhit).mono (hleast d' hd')

end

/-- The shortest decimal of a zero, too, rounds to it, has no more digits than any decimal that does
and has the one form without zeros at the end. -/
theorem shortest_reads_back (x : Binary64) (hfinite : x.isFinite = true) :
    x.Nearest x.negative (shortest x).value ∧
      (∀ d : Decimal, x.Nearest x.negative d.value → FitsIn d.significant (shortest x).value) ∧
      (shortest x).Canonical := by
  cases hzero : x.isZero with
  | false =>
    obtain ⟨hnearest, hfits, hlast, -⟩ := shortest_spec x hfinite hzero
    exact ⟨hnearest, hfits, .inr hlast⟩
  | true =>
    have hshortest : shortest x = ⟨0, 0⟩ := by rw [shortest, if_pos hzero]
    have hvalue : (shortest x).value = 0 := by
      rw [hshortest, value, Nat.cast_zero, zero_mul]
    refine ⟨?_, fun d _ => ⟨0, 0, Nat.pow_pos (by decide), by rw [hshortest]⟩, .inl hshortest⟩
    rw [hvalue, ← (Binary64.value_eq_zero_iff x).mpr hzero]
    exact Binary64.nearest_value x (Binary64.isNaN_of_isFinite x hfinite)

end Netscribe.Decimal
