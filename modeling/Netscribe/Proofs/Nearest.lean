import Mathlib.Algebra.Order.Field.Rat
import Mathlib.Algebra.Order.Group.Abs
import Mathlib.Order.Monotone.Basic
import Mathlib.Tactic.FieldSimp
import Mathlib.Tactic.Linarith
import Mathlib.Tactic.Positivity
import Mathlib.Tactic.Ring
import Netscribe.Number.Decimal

/-!
# The nearest double

Without its sign bit a double is a word of 63 bits, and the magnitudes are strictly increasing in the
word: the next word is one unit in the last place away, also across a power of two. So a rational
number is nearest to a word exactly if it lies between the two midpoints to the neighbouring words,
where a midpoint belongs to the even one. The interval of the shortest digits is this one.
-/

namespace Netscribe.Binary64

/-- The magnitude as a rational number. An infinity stands at the power of two after the greatest
finite number, where rounding takes it to be. -/
def value (x : Binary64) : ℚ := x.magnitude / unit

/-- The number of the given sign and magnitude `q` rounds to `x`: no double is nearer to it, and one
that is equally near leaves `x` the even significand. -/
structure Nearest (negative : Bool) (q : ℚ) (x : Binary64) : Prop where
  number : x.isNaN = false
  sign : x.negative = negative
  least (y : Binary64) : y.isNaN = false → |x.value - q| ≤ |y.value - q|
  even (y : Binary64) : y.isNaN = false → y.value ≠ x.value → |y.value - q| = |x.value - q| →
    x.significand % 2 = 0

/-! ### Words -/

/-- The bits without the sign. -/
def word (x : Binary64) : Nat := x.bits.toNat % Nat.pow 2 63

def lastWord : Nat := 2047 * Nat.pow 2 52

/-- The magnitude of a word, over `unit`. -/
def magnitudeAt (w : Nat) : Nat :=
  (if w / Nat.pow 2 52 = 0 then w % Nat.pow 2 52 else Nat.pow 2 52 + w % Nat.pow 2 52) *
    Nat.pow 2 (w / Nat.pow 2 52 - 1)

def gap (w : Nat) : Nat := Nat.pow 2 (w / Nat.pow 2 52 - 1)

theorem field_eq (x : Binary64) : x.field = x.word / Nat.pow 2 52 := by
  simp only [field, word, Nat.pow_eq]
  omega

theorem fraction_eq (x : Binary64) : x.fraction = x.word % Nat.pow 2 52 := by
  simp only [fraction, word, Nat.pow_eq]
  omega

theorem magnitude_eq (x : Binary64) : x.magnitude = magnitudeAt x.word := by
  rw [magnitude, significand, scale, field_eq, fraction_eq, magnitudeAt]

theorem significand_mod_two (x : Binary64) : x.significand % 2 = x.word % 2 := by
  have hfraction := fraction_eq x
  simp only [Nat.pow_eq] at hfraction
  simp only [significand, Nat.pow_eq]
  split <;> omega

theorem isNaN_eq_false_iff (x : Binary64) : x.isNaN = false ↔ x.word ≤ lastWord := by
  have hword : x.word < 2 ^ 63 := Nat.mod_lt _ (by decide)
  have hfield := field_eq x
  have hfraction := fraction_eq x
  simp only [Nat.pow_eq] at hfield hfraction
  simp only [isNaN, Bool.and_eq_false_iff, decide_eq_false_iff_not, lastWord, Nat.pow_eq]
  omega

theorem isFinite_iff (x : Binary64) : x.isFinite = true ↔ x.word < lastWord := by
  have hword : x.word < 2 ^ 63 := Nat.mod_lt _ (by decide)
  have hfield := field_eq x
  simp only [Nat.pow_eq] at hfield
  simp only [isFinite, decide_eq_true_eq, lastWord, Nat.pow_eq]
  omega

theorem isNaN_of_isFinite (x : Binary64) (h : x.isFinite = true) : x.isNaN = false :=
  (isNaN_eq_false_iff x).mpr ((isFinite_iff x).mp h).le

theorem isZero_iff (x : Binary64) : x.isZero = true ↔ x.word = 0 := by
  have hfield := field_eq x
  have hfraction := fraction_eq x
  simp only [Nat.pow_eq] at hfield hfraction
  simp only [isZero, Bool.and_eq_true, decide_eq_true_eq]
  omega

theorem word_pos (x : Binary64) (h : x.isZero = false) : 0 < x.word := by
  refine Nat.pos_of_ne_zero fun h0 => ?_
  rw [(isZero_iff x).mpr h0] at h
  cases h

/-- Every word up to that of the infinities belongs to a number. -/
theorem exists_word (w : Nat) (h : w ≤ lastWord) : ∃ y : Binary64, y.word = w := by
  refine ⟨⟨UInt64.ofNat w⟩, ?_⟩
  simp only [lastWord, Nat.pow_eq] at h
  have hbits : (UInt64.ofNat w).toNat = w := by
    rw [UInt64.toNat_ofNat']
    omega
  simp only [word, hbits, Nat.pow_eq]
  omega

/-- The sign and the word are all of a number. -/
theorem ext_word (x y : Binary64) (hsign : x.negative = y.negative) (hword : x.word = y.word) :
    x = y := by
  have hx := x.bits.toNat_lt
  have hy := y.bits.toNat_lt
  simp only [negative, decide_eq_decide, Nat.pow_eq] at hsign
  simp only [word, Nat.pow_eq] at hword
  have hbits : x.bits.toNat = y.bits.toNat := by omega
  cases x
  cases y
  exact congrArg Binary64.mk (UInt64.toNat_inj.mp hbits)

/-! ### The order of the words -/

theorem two_pow_pos (n : Nat) : 0 < Nat.pow 2 n := Nat.pow_pos (by decide)

theorem gap_pos (w : Nat) : 0 < gap w := two_pow_pos _

/-- Inside of a binade the significand grows by one; behind its last word the next binade begins. -/
theorem magnitudeAt_succ (w : Nat) : magnitudeAt (w + 1) = magnitudeAt w + gap w := by
  by_cases hlast : w % 2 ^ 52 + 1 = 2 ^ 52
  -- the hidden bit of the next binade takes the place of the carry, also out of the subnormals
  · have hfield : (w + 1) / 2 ^ 52 = w / 2 ^ 52 + 1 := by omega
    have hfraction : (w + 1) % 2 ^ 52 = 0 := by omega
    have hfull : w % 2 ^ 52 = 2 ^ 52 - 1 := by omega
    simp only [magnitudeAt, gap, Nat.pow_eq, hfield, hfraction, hfull]
    rcases hf : w / 2 ^ 52 with - | f
    · simp
    · simp only [Nat.add_sub_cancel, Nat.add_eq_zero_iff, Nat.one_ne_zero, and_false, if_false,
        Nat.pow_succ 2 f]
      omega
  · have hlt := Nat.mod_lt w (show 0 < 2 ^ 52 by decide)
    have hfield : (w + 1) / 2 ^ 52 = w / 2 ^ 52 := by omega
    have hfraction : (w + 1) % 2 ^ 52 = w % 2 ^ 52 + 1 := by omega
    simp only [magnitudeAt, gap, Nat.pow_eq, hfield, hfraction]
    split <;> ring

theorem magnitudeAt_strictMono : StrictMono magnitudeAt := by
  refine strictMono_nat_of_lt_succ fun w => ?_
  rw [magnitudeAt_succ]
  exact Nat.lt_add_of_pos_right (gap_pos w)

theorem magnitude_pos (x : Binary64) (h : x.isZero = false) : 0 < x.magnitude := by
  rw [magnitude_eq]
  exact Nat.zero_lt_of_lt (magnitudeAt_strictMono (word_pos x h))

def valueAt (w : Nat) : ℚ := magnitudeAt w / unit

theorem unit_pos : (0 : ℚ) < unit := by
  unfold unit
  -- the exponent is too large to compare powers by their values
  generalize 1074 = e
  exact Nat.cast_pos.mpr (two_pow_pos e)

theorem valueAt_strictMono : StrictMono valueAt := fun _ _ h =>
  div_lt_div_of_pos_right (Nat.cast_lt.mpr (magnitudeAt_strictMono h)) unit_pos

theorem value_eq (x : Binary64) : x.value = valueAt x.word := by
  rw [value, magnitude_eq, valueAt]

theorem value_pos (x : Binary64) (h : x.isZero = false) : 0 < x.value :=
  div_pos (Nat.cast_pos.mpr (magnitude_pos x h)) unit_pos

theorem value_eq_zero_iff (x : Binary64) : x.value = 0 ↔ x.isZero = true := by
  constructor
  · intro h
    by_contra hne
    exact (value_pos x (Bool.eq_false_iff.mpr hne)).ne' h
  · intro h
    have hmagnitude : magnitudeAt 0 = 0 := by decide
    rw [value_eq, (isZero_iff x).mp h, valueAt, hmagnitude, Nat.cast_zero, zero_div]

theorem value_eq_iff (x y : Binary64) : x.value = y.value ↔ x.word = y.word := by
  rw [value_eq, value_eq, valueAt_strictMono.injective.eq_iff]

/-! ### Midpoints -/

/-- A number is at least as near to the lower of two as to the upper exactly up to their midpoint. -/
theorem lower_near_iff (a b q : ℚ) (h : a < b) : |a - q| ≤ |b - q| ↔ 2 * q ≤ a + b := by
  rcases abs_cases (a - q) with ⟨ha, _⟩ | ⟨ha, _⟩ <;>
    rcases abs_cases (b - q) with ⟨hb, _⟩ | ⟨hb, _⟩ <;> constructor <;> intro hle <;> linarith

theorem upper_near_iff (a b q : ℚ) (h : a < b) : |b - q| ≤ |a - q| ↔ a + b ≤ 2 * q := by
  rcases abs_cases (a - q) with ⟨ha, _⟩ | ⟨ha, _⟩ <;>
    rcases abs_cases (b - q) with ⟨hb, _⟩ | ⟨hb, _⟩ <;> constructor <;> intro hle <;> linarith

theorem equally_near_iff (a b q : ℚ) (h : a < b) : |a - q| = |b - q| ↔ 2 * q = a + b := by
  rw [le_antisymm_iff, lower_near_iff a b q h, upper_near_iff a b q h, ← le_antisymm_iff]

/-- `2 * q` is below a bound, or on it if the word is even. -/
def Below (w : Nat) (q bound : ℚ) : Prop := 2 * q < bound ∨ 2 * q = bound ∧ w % 2 = 0

def Above (w : Nat) (q bound : ℚ) : Prop := bound < 2 * q ∨ 2 * q = bound ∧ w % 2 = 0

/-- Rounding looks at magnitudes, so at words, only. -/
theorem nearest_iff_words (x : Binary64) (q : ℚ) (hnumber : x.isNaN = false) :
    x.Nearest x.negative q ↔ ∀ v ≤ lastWord, v ≠ x.word → |valueAt x.word - q| ≤ |valueAt v - q| ∧
      (|valueAt x.word - q| = |valueAt v - q| → x.word % 2 = 0) := by
  constructor
  · intro h v hv hne
    obtain ⟨y, rfl⟩ := exists_word v hv
    have hy := (isNaN_eq_false_iff y).mpr hv
    rw [← value_eq, ← value_eq, ← significand_mod_two]
    exact ⟨h.least y hy, fun heq => h.even y hy (mt (value_eq_iff y x).mp hne) heq.symm⟩
  · intro h
    have hside : ∀ y : Binary64, y.isNaN = false → y.value ≠ x.value →
        |x.value - q| ≤ |y.value - q| ∧ (|x.value - q| = |y.value - q| → x.significand % 2 = 0) := by
      intro y hy hne
      rw [value_eq x, value_eq y, significand_mod_two]
      exact h y.word ((isNaN_eq_false_iff y).mp hy) (mt (value_eq_iff y x).mpr hne)
    refine ⟨hnumber, rfl, fun y hy => ?_, fun y hy hne heq => (hside y hy hne).2 heq.symm⟩
    by_cases hne : y.value = x.value
    · rw [hne]
    · exact (hside y hy hne).1

/-- Only the two neighbouring words matter: a word beyond them has its midpoint beyond theirs. -/
theorem nearest_iff (x : Binary64) (q : ℚ) (hfinite : x.isFinite = true) (hzero : x.isZero = false) :
    x.Nearest x.negative q ↔
      Above x.word q (valueAt (x.word - 1) + valueAt x.word) ∧
        Below x.word q (valueAt x.word + valueAt (x.word + 1)) := by
  have hword := (isFinite_iff x).mp hfinite
  have hpos := word_pos x hzero
  rw [nearest_iff_words x q (isNaN_of_isFinite x hfinite)]
  constructor
  · intro h
    have hdown : valueAt (x.word - 1) < valueAt x.word := valueAt_strictMono (by omega)
    have hup : valueAt x.word < valueAt (x.word + 1) := valueAt_strictMono (by omega)
    obtain ⟨hlow, hlowTie⟩ := h (x.word - 1) (by omega) (by omega)
    obtain ⟨hhigh, hhighTie⟩ := h (x.word + 1) (by omega) (by omega)
    rw [upper_near_iff _ _ q hdown] at hlow
    rw [eq_comm, equally_near_iff _ _ q hdown] at hlowTie
    rw [lower_near_iff _ _ q hup] at hhigh
    rw [equally_near_iff _ _ q hup] at hhighTie
    exact ⟨hlow.lt_or_eq.imp id fun heq => ⟨heq.symm, hlowTie heq.symm⟩,
      hhigh.lt_or_eq.imp id fun heq => ⟨heq, hhighTie heq⟩⟩
  · rintro ⟨habove, hbelow⟩ v - hne
    rcases Nat.lt_or_gt_of_ne hne with hlt | hlt
    · have hv := valueAt_strictMono hlt
      have hle : valueAt v ≤ valueAt (x.word - 1) := valueAt_strictMono.monotone (by omega)
      rw [upper_near_iff _ _ q hv, eq_comm, equally_near_iff _ _ q hv]
      rcases habove with h | ⟨h, heven⟩
      · exact ⟨by linarith, fun heq => by linarith⟩
      · exact ⟨by linarith, fun _ => heven⟩
    · have hv := valueAt_strictMono hlt
      have hle : valueAt (x.word + 1) ≤ valueAt v := valueAt_strictMono.monotone (by omega)
      rw [lower_near_iff _ _ q hv, equally_near_iff _ _ q hv]
      rcases hbelow with h | ⟨h, heven⟩
      · exact ⟨by linarith, fun heq => by linarith⟩
      · exact ⟨by linarith, fun _ => heven⟩

/-- Nothing is nearer to a number than itself. -/
theorem nearest_value (x : Binary64) (h : x.isNaN = false) : x.Nearest x.negative x.value := by
  refine ⟨h, rfl, fun y _ => ?_, fun y _ hne heq => ?_⟩
  · rw [sub_self, abs_zero]
    exact abs_nonneg _
  · rw [sub_self, abs_zero, abs_eq_zero, sub_eq_zero] at heq
    exact absurd heq hne

theorem Nearest.ne_zero {negative : Bool} {q : ℚ} {x : Binary64} (h : x.Nearest negative q)
    (hzero : x.isZero = false) : q ≠ 0 := by
  rintro rfl
  obtain ⟨y, hy⟩ := exists_word 0 (Nat.zero_le _)
  have hleast := h.least y ((isNaN_eq_false_iff y).mpr (by omega))
  have hpos := value_pos x hzero
  have hvalue := (value_eq_zero_iff y).mpr ((isZero_iff y).mpr hy)
  rw [hvalue, sub_zero, sub_self, abs_zero, abs_of_pos hpos] at hleast
  linarith

/-- Two words at the same distance are both even, and then the word after the lower is nearer. -/
theorem Nearest.not_word_lt {negative : Bool} {q : ℚ} {x y : Binary64} (hx : x.Nearest negative q)
    (hy : y.Nearest negative q) : ¬ x.word < y.word := by
  intro hlt
  have hxy := valueAt_strictMono hlt
  have hdistance : |x.value - q| = |y.value - q| :=
    le_antisymm (hx.least y hy.number) (hy.least x hx.number)
  have hne : y.value ≠ x.value := mt (value_eq_iff y x).mp (by omega)
  have hxeven := hx.even y hy.number hne hdistance.symm
  have hyeven := hy.even x hx.number hne.symm hdistance
  rw [significand_mod_two] at hxeven hyeven
  have hlast := (isNaN_eq_false_iff y).mp hy.number
  -- two even words are not neighbours
  obtain ⟨z, hz⟩ := exists_word (x.word + 1) (by omega)
  have hxz : valueAt x.word < valueAt z.word := valueAt_strictMono (by omega)
  have hzy : valueAt z.word < valueAt y.word := valueAt_strictMono (by omega)
  have hleast := hx.least z ((isNaN_eq_false_iff z).mpr (by omega))
  rw [value_eq, value_eq, lower_near_iff _ _ q hxz] at hleast
  rw [value_eq, value_eq, equally_near_iff _ _ q hxy] at hdistance
  linarith

theorem Nearest.unique {negative : Bool} {q : ℚ} {x y : Binary64} (hx : x.Nearest negative q)
    (hy : y.Nearest negative q) : x = y := by
  have hle := hx.not_word_lt hy
  have hge := hy.not_word_lt hx
  exact ext_word x y (hx.sign.trans hy.sign.symm) (by omega)

end Netscribe.Binary64

/-! ### The interval of the shortest digits -/

namespace Netscribe.Decimal

open Binary64 (magnitudeAt magnitudeAt_succ gap)

def Interval.Holds (i : Interval) (q : ℚ) : Prop :=
  if i.closed then i.low ≤ q * i.denominator ∧ q * i.denominator ≤ i.high
  else i.low < q * i.denominator ∧ q * i.denominator < i.high

theorem interval_value (x : Binary64) : (interval x).value = 4 * x.magnitude := by
  simp only [interval, Binary64.magnitude]
  ring

theorem interval_high (x : Binary64) :
    (interval x).high = 2 * (magnitudeAt x.word + magnitudeAt (x.word + 1)) := by
  rw [magnitudeAt_succ, ← Binary64.magnitude_eq, gap, ← Binary64.field_eq]
  simp only [interval, Binary64.magnitude, Binary64.scale]
  ring

/-- The width below is that of the preceding binade at its end, else that of the number's own. -/
theorem below_eq (x : Binary64) (h : 0 < x.word) :
    (if x.fraction = 0 ∧ 1 < x.field then 1 else 2) * Nat.pow 2 x.scale = 2 * gap (x.word - 1) := by
  have hfield := Binary64.field_eq x
  have hfraction := Binary64.fraction_eq x
  simp only [Nat.pow_eq] at hfield hfraction
  simp only [Binary64.scale, gap, Nat.pow_eq]
  split
  case isTrue hend =>
    have hbefore : (x.word - 1) / 2 ^ 52 = x.field - 1 := by omega
    have hscale : x.field - 1 = x.field - 1 - 1 + 1 := by omega
    rw [hbefore]
    nth_rewrite 1 [hscale]
    ring
  case isFalse hinner =>
    have hbefore : (x.word - 1) / 2 ^ 52 - 1 = x.field - 1 := by omega
    rw [hbefore]

theorem interval_low (x : Binary64) (h : 0 < x.word) :
    (interval x).low = 2 * (magnitudeAt (x.word - 1) + magnitudeAt x.word) := by
  have hbelow := below_eq x h
  have hsucc := magnitudeAt_succ (x.word - 1)
  -- `low` is the doubled sum of the two neighbours, reached from the upper one
  rw [Nat.sub_add_cancel h, ← Binary64.magnitude_eq] at hsucc
  rw [← Binary64.magnitude_eq]
  simp only [interval, Nat.sub_mul, hbelow]
  have hmagnitude : 4 * x.significand * Nat.pow 2 x.scale = 4 * x.magnitude := by
    rw [Binary64.magnitude]
    ring
  rw [hmagnitude]
  omega

/-- The decimals between the midpoints are those that round to the number. -/
theorem nearest_iff_holds (x : Binary64) (q : ℚ) (hfinite : x.isFinite = true)
    (hzero : x.isZero = false) : x.Nearest x.negative q ↔ (interval x).Holds q := by
  have hunit : (0 : ℚ) < 2 * Binary64.unit := by
    have := Binary64.unit_pos
    positivity
  have hscaled (a b : Nat) : ((2 * (magnitudeAt a + magnitudeAt b) : Nat) : ℚ) =
      (Binary64.valueAt a + Binary64.valueAt b) * (2 * Binary64.unit) := by
    have := Binary64.unit_pos
    unfold Binary64.valueAt
    push_cast
    field_simp
  have hpoint : q * (interval x).denominator = 2 * q * (2 * Binary64.unit) := by
    simp only [interval]
    push_cast
    ring
  have hclosed : (interval x).closed = decide (x.word % 2 = 0) := by
    rw [← Binary64.significand_mod_two]
    rfl
  rw [Binary64.nearest_iff x q hfinite hzero, Interval.Holds, hclosed, hpoint,
    interval_low x (Binary64.word_pos x hzero), interval_high x, hscaled, hscaled]
  simp only [mul_le_mul_iff_left₀ hunit, mul_lt_mul_iff_left₀ hunit, decide_eq_true_eq,
    Binary64.Above, Binary64.Below]
  by_cases heven : x.word % 2 = 0
  · rw [if_pos heven, le_iff_lt_or_eq, le_iff_lt_or_eq]
    simp only [heven, and_true, eq_comm]
  · rw [if_neg heven]
    simp only [heven, and_false, or_false]

end Netscribe.Decimal
