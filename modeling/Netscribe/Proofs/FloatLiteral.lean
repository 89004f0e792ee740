import Netscribe.Literal
import Netscribe.Proofs.DecimalText

/-!
# Float literals read back

A float literal is positional or has an exponent, which is decided by the place of the first digit of
the shortest decimal. This agrees with a comparison of the number itself, because the two limits are
powers of ten whose nearest doubles are not below them. What the text reads back as then has the value
of the shortest decimal, which rounds to the number.
-/

namespace Netscribe.Decimal

/-! ### Limits of the positional form -/

theorem le_topExponent_iff (d : Decimal) (h : d.digits ≠ 0) (k : Int) :
    k ≤ d.topExponent ↔ 10 ^ k ≤ d.value := by
  obtain ⟨hleast, hmost⟩ := decimalDigits_bounds d.digits (Nat.pos_of_ne_zero h)
  have hlength : 0 < (decimalDigits d.digits).length := Nat.length_toDigits_pos
  obtain ⟨htop, hnext⟩ := ten_zpow_grid d.topExponent _ hlength
  have hstep := ten_zpow_pos d.exponent
  rw [topExponent, show ((decimalDigits d.digits).length : Int) + d.exponent - 1 + 1 -
    (decimalDigits d.digits).length = d.exponent by omega, ← topExponent] at htop hnext
  constructor
  · intro hle
    calc (10 : ℚ) ^ k ≤ 10 ^ d.topExponent := zpow_le_zpow_right₀ (by norm_num) hle
      _ ≤ d.value := by
        rw [htop]
        exact mul_le_mul_of_nonneg_right (Nat.cast_le.mpr hleast) hstep.le
  · intro hle
    by_contra hlt
    have hvalue : d.value < 10 ^ (d.topExponent + 1) := by
      rw [hnext]
      exact mul_lt_mul_of_pos_right (Nat.cast_lt.mpr hmost) hstep
    have hpow : (10 : ℚ) ^ (d.topExponent + 1) ≤ 10 ^ k := zpow_le_zpow_right₀ (by norm_num) (by omega)
    linarith

/-- Rounding to the shortest decimal does not reach a power of ten whose nearest double is not below
it: the decimal would read back as that double. -/
theorem power_le_shortest_iff (x y : Binary64) (k : Int) (hfinite : x.isFinite = true)
    (hzero : x.isZero = false) (hy : y.Nearest x.negative (10 ^ k)) (hle : 10 ^ k ≤ y.value) :
    10 ^ k ≤ (shortest x).value ↔ 10 ^ k ≤ x.value := by
  obtain ⟨hnearest, -, -, hlow, hhigh⟩ := shortest_spec x hfinite hzero
  obtain ⟨hleast, hmost⟩ := center_bounds x hzero
  rw [interval_center] at hleast hmost
  have hpower (j l : Int) : (10 : ℚ) ^ j < 10 ^ l ↔ j < l := zpow_lt_zpow_iff_right₀ (by norm_num)
  have hpower' (j l : Int) : (10 : ℚ) ^ j ≤ 10 ^ l ↔ j ≤ l := zpow_le_zpow_iff_right₀ (by norm_num)
  constructor
  · intro h
    by_contra hless
    -- then the decimal is `10 ^ k` itself, which rounds to `y` and not to `x`
    have htop : top x < k := (hpower _ _).mp (hleast.trans_lt (not_le.mp hless))
    have hreach : (shortest x).value = 10 ^ k :=
      le_antisymm (hhigh.trans ((hpower' _ _).mpr (by omega))) h
    rw [hreach] at hnearest
    rw [hnearest.unique hy] at hless
    exact hless hle
  · intro h
    have htop : k < top x + 1 := (hpower _ _).mp (h.trans_lt hmost)
    exact ((hpower' _ _).mpr (by omega)).trans hlow

theorem power_le_value (y : Binary64) (k : Int)
    (h : (powerOfTen k).1 * Binary64.unit ≤ y.magnitude * (powerOfTen k).2) : 10 ^ k ≤ y.value := by
  have hq : (0 : ℚ) < (powerOfTen k).2 := Nat.cast_pos.mpr (powerOfTen_pos k).2
  have hscaled : ((powerOfTen k).1 : ℚ) * Binary64.unit ≤ y.magnitude * (powerOfTen k).2 := by
    rw [← Nat.cast_mul, ← Nat.cast_mul]
    exact Nat.cast_le.mpr h
  rw [Binary64.value, le_div_iff₀ Binary64.unit_pos]
  refine le_of_mul_le_mul_right ?_ hq
  rw [powerOfTen_eq] at hscaled
  linarith

theorem nearest_power (y : Binary64) (k : Int) (hfinite : y.isFinite = true)
    (hzero : y.isZero = false) (h : inside (interval y) ⟨1, k⟩ = true) :
    y.Nearest y.negative (10 ^ k) := by
  have hholds := (inside_iff _ _).mp h
  rw [value, Nat.cast_one, one_mul] at hholds
  exact (nearest_iff_holds y _ hfinite hzero).mpr hholds

/-- The double nearest to `10 ^ -4`, which is a little more. -/
def lowerLimit (negative : Bool) : Binary64 := .ofParts negative 0x3F1 0xA36E2EB1C432D

/-- The double `10 ^ 16`. -/
def upperLimit (negative : Bool) : Binary64 := .ofParts negative 0x434 0x1C37937E08000

theorem lowerLimit_spec (negative : Bool) :
    (lowerLimit negative).Nearest negative (10 ^ (-4 : Int)) ∧
      10 ^ (-4 : Int) ≤ (lowerLimit negative).value := by
  have hsign : (lowerLimit negative).negative = negative := by
    cases negative <;> decide +kernel
  have hnearest := nearest_power (lowerLimit negative) (-4) (by cases negative <;> decide +kernel)
    (by cases negative <;> decide +kernel) (by cases negative <;> decide +kernel)
  rw [hsign] at hnearest
  exact ⟨hnearest, power_le_value _ _ (by cases negative <;> decide +kernel)⟩

theorem upperLimit_spec (negative : Bool) :
    (upperLimit negative).Nearest negative (10 ^ (16 : Int)) ∧
      10 ^ (16 : Int) ≤ (upperLimit negative).value := by
  have hsign : (upperLimit negative).negative = negative := by
    cases negative <;> decide +kernel
  have hnearest := nearest_power (upperLimit negative) 16 (by cases negative <;> decide +kernel)
    (by cases negative <;> decide +kernel) (by cases negative <;> decide +kernel)
  rw [hsign] at hnearest
  exact ⟨hnearest, power_le_value _ _ (by cases negative <;> decide +kernel)⟩

/-- The place of the first digit of the shortest decimal tells whether the number is in the range. -/
theorem topExponent_in_range_iff (x : Binary64) (hfinite : x.isFinite = true)
    (hzero : x.isZero = false) :
    (-4 ≤ (shortest x).topExponent ∧ (shortest x).topExponent < 16) ↔
      1 / 10 ^ 4 ≤ x.value ∧ x.value < 10 ^ 16 := by
  obtain ⟨-, -, hlast, -⟩ := shortest_spec x hfinite hzero
  have hdigits : (shortest x).digits ≠ 0 := fun h => hlast (by rw [h])
  obtain ⟨hlower, hlowerLe⟩ := lowerLimit_spec x.negative
  obtain ⟨hupper, hupperLe⟩ := upperLimit_spec x.negative
  rw [← not_le, ← not_le, le_topExponent_iff _ hdigits, le_topExponent_iff _ hdigits,
    power_le_shortest_iff x _ _ hfinite hzero hlower hlowerLe,
    power_le_shortest_iff x _ _ hfinite hzero hupper hupperLe]
  norm_num

end Netscribe.Decimal

namespace Netscribe.Literal

open Decimal (Digits sign)

/-! ### Forms of literals -/

/-- Digits on both sides of a point, perhaps after a minus. -/
def IsPositional (cs : List Char) : Prop :=
  ∃ negative whole places, Digits whole ∧ Digits places ∧
    cs = sign negative ++ (whole ++ '.' :: places)

/-- A digit, perhaps more digits after a point, and an exponent with a sign and at least two digits;
all of it perhaps after a minus. -/
def IsScientific (cs : List Char) : Prop :=
  ∃ negative c places s ds, c.isDigit = true ∧ (∀ p ∈ places, p.isDigit = true) ∧
    (s = '+' ∨ s = '-') ∧ Digits ds ∧ 2 ≤ ds.length ∧
    cs = sign negative ++ (c :: ((if places = [] then [] else '.' :: places) ++ 'e' :: s :: ds))

/-- What may read as an integer: digits and underscores, or a zero and the letter of a base, perhaps
after a sign. -/
def IsInteger (cs : List Char) : Prop :=
  ∃ s body, s ∈ [[], ['-'], ['+']] ∧ cs = s ++ body ∧
    ((∀ c ∈ body, c.isDigit = true ∨ c = '_') ∨
      ∃ c rest, c ∈ ['b', 'B', 'o', 'O', 'x', 'X'] ∧ body = '0' :: c :: rest)

def Plain (c : Char) : Prop := c.isDigit = true ∨ c ∈ ['.', 'e', '+', '-']

theorem plain_sign (negative : Bool) : ∀ c ∈ sign negative, Plain c := by
  intro c hc
  cases negative with
  | false => cases hc
  | true =>
    rw [List.mem_singleton.mp hc]
    exact .inr (by decide)

theorem IsPositional.plain {cs : List Char} (h : IsPositional cs) : ∀ c ∈ cs, Plain c := by
  obtain ⟨negative, whole, places, hwhole, hplaces, rfl⟩ := h
  intro c hc
  simp only [List.mem_append, List.mem_cons] at hc
  rcases hc with hc | hc | rfl | hc
  · exact plain_sign negative c hc
  · exact .inl (hwhole.2 c hc)
  · exact .inr (by decide)
  · exact .inl (hplaces.2 c hc)

theorem IsPositional.point_mem {cs : List Char} (h : IsPositional cs) : '.' ∈ cs := by
  obtain ⟨negative, whole, places, -, -, rfl⟩ := h
  simp only [List.mem_append, List.mem_cons, true_or, or_true]

theorem IsPositional.letter_not_mem {cs : List Char} (h : IsPositional cs) : 'e' ∉ cs := by
  obtain ⟨negative, whole, places, hwhole, hplaces, rfl⟩ := h
  intro hmem
  simp only [List.mem_append, List.mem_cons] at hmem
  rcases hmem with hc | hc | hc | hc
  · cases negative with
    | false => cases hc
    | true => exact absurd (List.mem_singleton.mp hc) (by decide)
  · cases hwhole.2 _ hc
  · exact absurd hc (by decide)
  · cases hplaces.2 _ hc

theorem IsScientific.letter_mem {cs : List Char} (h : IsScientific cs) : 'e' ∈ cs := by
  obtain ⟨negative, c, places, s, ds, -, -, -, -, -, rfl⟩ := h
  simp only [List.mem_append, List.mem_cons, true_or, or_true]

theorem IsScientific.plain {cs : List Char} (h : IsScientific cs) : ∀ c ∈ cs, Plain c := by
  obtain ⟨negative, c, places, s, ds, hfirst, hplaces, hs, hds, -, rfl⟩ := h
  intro a ha
  simp only [List.mem_append, List.mem_cons] at ha
  rcases ha with ha | rfl | ha | rfl | rfl | ha
  · exact plain_sign negative a ha
  · exact .inl hfirst
  · split at ha
    · cases ha
    · rcases List.mem_cons.mp ha with rfl | ha
      · exact .inr (by decide)
      · exact .inl (hplaces a ha)
  · exact .inr (by decide)
  · rcases hs with rfl | rfl <;> exact .inr (by decide)
  · exact .inl (hds.2 a ha)

/-- A point or an `e` is part of no run of digits, and no letter of a base is part of the text. -/
theorem not_isInteger (cs : List Char) (hplain : ∀ c ∈ cs, Plain c) (hmark : '.' ∈ cs ∨ 'e' ∈ cs) :
    ¬ IsInteger cs := by
  rintro ⟨s, body, hs, rfl, hdigits | ⟨c, rest, hbase, rfl⟩⟩
  · have hsign : ∀ s ∈ [[], ['-'], ['+']], '.' ∉ s ∧ 'e' ∉ s := by decide
    rw [List.mem_append, List.mem_append] at hmark
    rcases hmark with (hmem | hmem) | (hmem | hmem)
    · exact (hsign s hs).1 hmem
    · rcases hdigits _ hmem with h | h <;> cases h
    · exact (hsign s hs).2 hmem
    · rcases hdigits _ hmem with h | h <;> cases h
  · have hmem : c ∈ s ++ '0' :: c :: rest := by
      simp only [List.mem_append, List.mem_cons, true_or, or_true]
    have hc := hplain c hmem
    simp only [List.mem_cons, List.not_mem_nil, or_false] at hbase
    unfold Plain at hc
    revert hc
    rcases hbase with rfl | rfl | rfl | rfl | rfl | rfl <;> decide

theorem float_toList (x : Binary64) (h : x.isFinite = true) :
    (float x).toList = sign x.negative ++
      if x.isZero = true ∨ (-4 ≤ (Decimal.shortest x).topExponent ∧
        (Decimal.shortest x).topExponent < 16) then (Decimal.shortest x).pointed
      else (Decimal.shortest x).scientific := by
  have hnan := Binary64.isNaN_of_isFinite x h
  have hinfinite : x.isInfinite = false := by
    rw [Binary64.isInfinite, decide_eq_false (of_decide_eq_true h), Bool.false_and]
  have hsigned (body : List Char) : (if x.negative = true then '-' :: body else body) =
      sign x.negative ++ body := by
    cases x.negative <;> rfl
  simp only [float, Binary64.render, hnan, hinfinite, floatLayout, Bool.false_eq_true, if_false,
    String.toList_ofList, hsigned, true_and]
  rfl

/-- A positional text reads back as the value of the decimal. -/
theorem positional_reads_back (d : Decimal) (negative : Bool) (hd : d.Canonical) :
    IsPositional (sign negative ++ d.pointed) ∧
      ∃ d', Decimal.read? (sign negative ++ d.pointed) = some (negative, d') ∧ d'.value = d.value ∧
        (d'.digits % 10 = 0 → d'.exponent = -1) := by
  obtain ⟨whole, places, htext, hwhole, hplaces, hvalue, hlast⟩ := d.pointed_form hd
  have hread := Decimal.read?_pointed negative whole places [] 0 hwhole hplaces.2 (by simp) rfl
  rw [List.append_nil, ← htext, Int.zero_sub] at hread
  refine ⟨⟨negative, whole, places, hwhole, hplaces, by rw [htext]⟩, _, hread, hvalue, fun h => ?_⟩
  rw [hlast h]
  rfl

theorem isScientific_scientific (d : Decimal) (negative : Bool) :
    IsScientific (sign negative ++ d.scientific) := by
  obtain ⟨c, places, hdigits, htext⟩ := d.scientific_form
  obtain ⟨ds, hexponent, hds, hlength, -⟩ := Decimal.exponentText_digits d.topExponent
  have hall := (Decimal.digits_decimalDigits d.digits).2
  rw [hdigits] at hall
  refine ⟨negative, c, places, _, ds, hall c (List.mem_cons_self ..),
    fun p hp => hall p (List.mem_cons_of_mem c hp), ?_, hds, hlength, by rw [htext, hexponent]⟩
  split
  · exact .inr rfl
  · exact .inl rfl

/-- The form of a literal, and what it reads back as. -/
theorem float_cases (x : Binary64) (h : x.isFinite = true) :
    let text := (float x).toList
    (∃ d, Decimal.read? text = some (x.negative, d) ∧ d.value = (Decimal.shortest x).value ∧
      (d.digits % 10 = 0 → IsPositional text ∧ d.exponent = -1)) ∧
    ((IsPositional text ∧ (x.value = 0 ∨ 1 / 10 ^ 4 ≤ x.value ∧ x.value < 10 ^ 16)) ∨
      (IsScientific text ∧ x.value ≠ 0 ∧ ¬ (1 / 10 ^ 4 ≤ x.value ∧ x.value < 10 ^ 16))) := by
  intro text
  have hcanonical := (Decimal.shortest_reads_back x h).2.2
  have htext : text = _ := float_toList x h
  have hrange (hzero : x.isZero = false) := Decimal.topExponent_in_range_iff x h hzero
  rw [htext]
  split
  · next hform =>
    obtain ⟨hpositional, d, hread, hvalue, hend⟩ :=
      positional_reads_back (Decimal.shortest x) x.negative hcanonical
    refine ⟨⟨d, hread, hvalue, fun hlast => ⟨hpositional, hend hlast⟩⟩, .inl ⟨hpositional, ?_⟩⟩
    cases hzero : x.isZero with
    | true => exact .inl ((Binary64.value_eq_zero_iff x).mpr hzero)
    | false => exact .inr ((hrange hzero).mp (hform.resolve_left (by rw [hzero]; decide)))
  · next hform =>
    rw [not_or] at hform
    have hzero : x.isZero = false := Bool.eq_false_iff.mpr hform.1
    obtain ⟨-, -, hlast, -⟩ := Decimal.shortest_spec x h hzero
    exact ⟨⟨Decimal.shortest x, Decimal.read?_scientific _ _, rfl, fun hend => absurd hend hlast⟩,
      .inr ⟨isScientific_scientific _ _, (Binary64.value_pos x hzero).ne',
        mt (hrange hzero).mpr hform.2⟩⟩

/-- The literal of a finite number has a point or an exponent, so that it reads as no integer; it has
an exponent exactly if the number is not zero and outside of the range from `10 ^ -4` up to `10 ^ 16`.
What it reads back as rounds to this number and to no other, with the sign also of a zero, and no
decimal with fewer significant digits rounds to it. A zero at the end is written for an integer only. -/
theorem float_literal_reads_back (x : Binary64) (h : x.isFinite = true) :
    let text := (float x).toList
    (IsPositional text ∨ IsScientific text) ∧ ('.' ∈ text ∨ 'e' ∈ text) ∧ ¬ IsInteger text ∧
      (IsScientific text ↔ x.value ≠ 0 ∧ (x.value < 1 / 10 ^ 4 ∨ 10 ^ 16 ≤ x.value)) ∧
      ∃ d, Decimal.read? text = some (x.negative, d) ∧
        (∀ y : Binary64, y.Nearest x.negative d.value ↔ y = x) ∧
        (∀ d' : Decimal, x.Nearest x.negative d'.value → d.significant ≤ d'.significant) ∧
        (d.digits % 10 = 0 → IsPositional text ∧ d.exponent = -1) := by
  intro text
  obtain ⟨⟨d, hread, hvalue, hend⟩, hform⟩ := float_cases x h
  obtain ⟨hnearest, hfits, -⟩ := Decimal.shortest_reads_back x h
  rw [← hvalue] at hnearest hfits
  refine ⟨?_, ?_, ?_, ?_, d, hread, fun y => ⟨fun hy => hy.unique hnearest, ?_⟩, fun d' hd' => ?_, hend⟩
  · exact hform.imp And.left And.left
  · exact hform.imp (fun hp => hp.1.point_mem) fun hs => hs.1.letter_mem
  · rcases hform with ⟨hpositional, -⟩ | ⟨hscientific, -⟩
    · exact not_isInteger text hpositional.plain (.inl hpositional.point_mem)
    · exact not_isInteger text hscientific.plain (.inr hscientific.letter_mem)
  · have hout : (x.value < 1 / 10 ^ 4 ∨ 10 ^ 16 ≤ x.value) ↔
        ¬ (1 / 10 ^ 4 ≤ x.value ∧ x.value < 10 ^ 16) := by
      rw [not_and_or, not_le, not_lt]
    rw [hout]
    rcases hform with ⟨hpositional, hrange⟩ | ⟨hscientific, hrange⟩
    · refine iff_of_false (fun hs => hpositional.letter_not_mem hs.letter_mem) fun hne => ?_
      exact hrange.elim hne.1 hne.2
    · exact iff_of_true hscientific hrange
  · rintro rfl
    exact hnearest
  · exact (Decimal.significant_le_iff d _).mpr (hfits d' hd')

/-- The least positive number, whose interval ends at three halves of it, has one digit. -/
theorem least_positive_reads_back : float ⟨1⟩ = "5e-324" ∧
    ∃ d, Decimal.read? (float ⟨1⟩).toList = some (false, d) ∧
      ∀ y : Binary64, y.Nearest false d.value ↔ y = ⟨1⟩ := by
  obtain ⟨-, -, -, -, d, hread, hnearest, -⟩ := float_literal_reads_back ⟨1⟩ (by decide +kernel)
  exact ⟨by decide +kernel, d, hread, hnearest⟩

end Netscribe.Literal
