import Netscribe.Proofs.ShortestDecimal

/-!
# Decimal texts read back

Reading is by runs of digits, so a text is taken apart where its digits end: at the point, at the `e`
of the exponent, or at its end. The exponent form reads back as the decimal itself. The positional form
keeps the value only, because an integer is written with its zeros and one more after the point.
-/

namespace Netscribe.Decimal

/-! ### Digits -/

theorem natOfDigits_append (as bs : List Char) :
    natOfDigits (as ++ bs) = 10 ^ bs.length * natOfDigits as + natOfDigits bs := by
  have happend : natOfDigits (as ++ bs) = Nat.ofDigitChars 10 bs (natOfDigits as) :=
    Nat.ofDigitChars_append 0
  rw [happend, Nat.ofDigitChars_eq_ofDigitChars_zero]
  rfl

theorem natOfDigits_decimalDigits (n : Nat) : natOfDigits (decimalDigits n) = n :=
  Nat.ofDigitChars_ten_toDigits

theorem natOfDigits_zeros (n : Nat) : natOfDigits (List.replicate n '0') = 0 := by
  have hzeros : natOfDigits (List.replicate n '0') = 10 ^ n * 0 := Nat.ofDigitChars_replicate_zero
  rw [hzeros, Nat.mul_zero]

/-- One or more decimal digits. -/
def Digits (ds : List Char) : Prop := ds ≠ [] ∧ ∀ c ∈ ds, c.isDigit = true

theorem digits_decimalDigits (n : Nat) : Digits (decimalDigits n) :=
  ⟨Nat.toDigits_ne_nil, isDigit_of_mem_decimalDigits n⟩

theorem digits_singleton (c : Char) (h : c.isDigit = true) : Digits [c] := by
  refine ⟨List.cons_ne_nil _ _, fun a ha => ?_⟩
  rw [List.mem_singleton.mp ha]
  exact h

theorem Digits.append {as bs : List Char} (ha : Digits as) (hb : ∀ c ∈ bs, c.isDigit = true) :
    Digits (as ++ bs) := by
  refine ⟨fun h => ha.1 (List.append_eq_nil_iff.mp h).1, fun c hc => ?_⟩
  rcases List.mem_append.mp hc with h | h
  · exact ha.2 c h
  · exact hb c h

theorem isDigit_of_mem_zeros (n : Nat) (c : Char) (h : c ∈ List.replicate n '0') :
    c.isDigit = true := by
  rw [List.eq_of_mem_replicate h]
  decide

/-! ### Reading -/

theorem span_digits (ds rest : List Char) (hds : ∀ c ∈ ds, c.isDigit = true)
    (hrest : ∀ c ∈ rest.head?, c.isDigit = false) :
    (ds ++ rest).takeWhile Char.isDigit = ds ∧ (ds ++ rest).dropWhile Char.isDigit = rest := by
  rw [List.takeWhile_append_of_pos hds, List.dropWhile_append_of_pos hds]
  cases rest with
  | nil => exact ⟨List.append_nil ds, rfl⟩
  | cons c rest =>
    have hc : c.isDigit = false := hrest c rfl
    simp only [List.takeWhile_cons, List.dropWhile_cons, hc, Bool.false_eq_true, if_false,
      List.append_nil, and_self]

def sign (negative : Bool) : List Char := if negative then ['-'] else []

theorem signed_sign (negative : Bool) (ds rest : List Char) (h : Digits ds) :
    signed (sign negative ++ (ds ++ rest)) = (negative, ds ++ rest) := by
  obtain ⟨hne, hdigits⟩ := h
  cases negative with
  | true => rfl
  | false =>
    cases ds with
    | nil => exact absurd rfl hne
    | cons c ds =>
      have hc := hdigits c (List.mem_cons_self ..)
      change signed (c :: (ds ++ rest)) = (false, c :: (ds ++ rest))
      unfold signed
      split
      · next heq =>
        cases heq
        cases hc
      · next heq =>
        cases heq
        cases hc
      · rfl

theorem read?_pointed (negative : Bool) (whole places rest : List Char) (e : Int)
    (hwhole : Digits whole) (hplaces : ∀ c ∈ places, c.isDigit = true)
    (hrest : ∀ c ∈ rest.head?, c.isDigit = false) (hexponent : readExponent? rest = some e) :
    read? (sign negative ++ (whole ++ '.' :: (places ++ rest))) =
      some (negative, ⟨natOfDigits (whole ++ places), e - places.length⟩) := by
  have hpoint : ∀ c ∈ ('.' :: (places ++ rest)).head?, c.isDigit = false := by
    rintro c ⟨⟩
    decide
  obtain ⟨htake, hdrop⟩ := span_digits whole ('.' :: (places ++ rest)) hwhole.2 hpoint
  obtain ⟨htake', hdrop'⟩ := span_digits places rest hplaces hrest
  simp only [read?, signed_sign negative whole _ hwhole, htake, hdrop, htake', hdrop', hexponent,
    hwhole.1, false_and, if_false]

theorem read?_whole (negative : Bool) (whole rest : List Char) (e : Int) (hwhole : Digits whole)
    (hexponent : readExponent? ('e' :: rest) = some e) :
    read? (sign negative ++ (whole ++ 'e' :: rest)) = some (negative, ⟨natOfDigits whole, e⟩) := by
  have hletter : ∀ c ∈ ('e' :: rest).head?, c.isDigit = false := by
    rintro c ⟨⟩
    decide
  obtain ⟨htake, hdrop⟩ := span_digits whole ('e' :: rest) hwhole.2 hletter
  unfold read?
  rw [signed_sign negative whole _ hwhole]
  dsimp only
  rw [htake, hdrop]
  split
  · next hpoint => cases hpoint
  · simp only [hwhole.1, hexponent, false_and, if_false, List.append_nil, List.length_nil,
      Nat.cast_zero, Int.sub_zero]

theorem natOfDigits_zero_cons (ds : List Char) : natOfDigits ('0' :: ds) = natOfDigits ds := rfl

theorem exponentText_digits (e : Int) :
    ∃ ds, exponentText e = (if e < 0 then '-' else '+') :: ds ∧ Digits ds ∧ 2 ≤ ds.length ∧
      natOfDigits ds = e.natAbs := by
  have hdigits := digits_decimalDigits e.natAbs
  have hread := natOfDigits_decimalDigits e.natAbs
  have hlength : 0 < (decimalDigits e.natAbs).length := Nat.length_toDigits_pos
  refine ⟨_, rfl, ?_⟩
  split
  · refine ⟨⟨List.cons_ne_nil _ _, fun c hc => ?_⟩, Nat.succ_le_succ hlength, hread⟩
    rcases List.mem_cons.mp hc with rfl | h
    · decide
    · exact hdigits.2 c h
  · next hlong => exact ⟨hdigits, by omega, hread⟩

theorem readExponent?_exponentText (e : Int) : readExponent? ('e' :: exponentText e) = some e := by
  obtain ⟨ds, htext, hdigits, -, hread⟩ := exponentText_digits e
  have hsigned : signed (exponentText e) = (decide (e < 0), ds) := by
    rw [htext]
    split
    · next h => rw [decide_eq_true h]; rfl
    · next h => rw [decide_eq_false h]; rfl
  have hall : ds.all Char.isDigit = true := List.all_eq_true.mpr hdigits.2
  simp only [readExponent?, hsigned, hdigits.1, hall, hread, true_or, if_true, ne_eq,
    not_false_eq_true, and_self, decide_eq_true_eq, Option.some.injEq]
  split <;> omega

/-! ### The two forms -/

def pointed (d : Decimal) : List Char :=
  if '.' ∉ d.positional then d.positional ++ ['.', '0'] else d.positional

theorem point_not_mem_digits (ds : List Char) (h : ∀ c ∈ ds, c.isDigit = true) : '.' ∉ ds := by
  intro hmem
  cases h '.' hmem

/-- An integer is its digits, zeros and the zero after the point. -/
theorem pointed_of_nonneg (d : Decimal) (hd : d.Canonical) (h : 0 ≤ d.exponent) :
    d.pointed = (decimalDigits d.digits ++ List.replicate d.exponent.toNat '0') ++ ['.', '0'] := by
  have hpositional : d.positional =
      decimalDigits d.digits ++ List.replicate d.exponent.toNat '0' := by
    rw [positional, if_pos h]
    split
    · next hzero =>
      rcases hd with rfl | hlast
      · rfl
      · exact absurd (by rw [hzero]) hlast
    · rfl
  have hdigits := (digits_decimalDigits d.digits).append (isDigit_of_mem_zeros d.exponent.toNat)
  rw [pointed, hpositional, if_pos (point_not_mem_digits _ hdigits.2)]

/-- A number below one has a zero before the point, any other number the digits that are no places. -/
theorem positional_of_neg (d : Decimal) (h : d.exponent < 0) :
    ∃ whole places, d.positional = whole ++ '.' :: places ∧ Digits whole ∧ Digits places ∧
      places.length = (-d.exponent).toNat ∧ natOfDigits (whole ++ places) = d.digits := by
  obtain ⟨hne, hdigits⟩ := digits_decimalDigits d.digits
  have hread := natOfDigits_decimalDigits d.digits
  simp only [positional, if_neg (not_le.mpr h)]
  split
  · next hshort =>
    refine ⟨['0'], _, rfl, digits_singleton '0' rfl, ⟨fun hnil => ?_, fun c hc => ?_⟩, ?_, ?_⟩
    · exact hne (List.append_eq_nil_iff.mp hnil).2
    · rcases List.mem_append.mp hc with hc | hc
      · exact isDigit_of_mem_zeros _ c hc
      · exact hdigits c hc
    · rw [List.length_append, List.length_replicate]
      omega
    · rw [List.singleton_append, natOfDigits_zero_cons, natOfDigits_append, natOfDigits_zeros, hread,
        Nat.mul_zero, Nat.zero_add]
  · next hlong =>
    have hlength : (decimalDigits d.digits).length - ((decimalDigits d.digits).length -
        (-d.exponent).toNat) = (-d.exponent).toNat := by omega
    refine ⟨_, _, rfl, ⟨fun hnil => ?_, fun c hc => hdigits c (List.mem_of_mem_take hc)⟩,
      ⟨fun hnil => ?_, fun c hc => hdigits c (List.mem_of_mem_drop hc)⟩, ?_, ?_⟩
    · have hlen := congrArg List.length hnil
      rw [List.length_take, List.length_nil] at hlen
      omega
    · have hlen := congrArg List.length hnil
      rw [List.length_drop, List.length_nil] at hlen
      omega
    · rw [List.length_drop, hlength]
    · rw [List.take_append_drop, hread]

/-- Digits around a point that have the value of the decimal. The last one is a zero only if it
stands for the missing places of an integer. -/
theorem pointed_form (d : Decimal) (hd : d.Canonical) :
    ∃ whole places, d.pointed = whole ++ '.' :: places ∧ Digits whole ∧ Digits places ∧
      value ⟨natOfDigits (whole ++ places), -places.length⟩ = d.value ∧
      (natOfDigits (whole ++ places) % 10 = 0 → places.length = 1) := by
  rcases le_or_gt 0 d.exponent with hsign | hsign
  · have hdigits := digits_decimalDigits d.digits
    refine ⟨_, ['0'], pointed_of_nonneg d hd hsign, hdigits.append (isDigit_of_mem_zeros _),
      digits_singleton '0' rfl, ?_, fun _ => rfl⟩
    have hread : natOfDigits (decimalDigits d.digits ++ List.replicate d.exponent.toNat '0' ++ ['0']) =
        d.digits * 10 ^ (d.exponent.toNat + 1) := by
      rw [natOfDigits_append, natOfDigits_append, natOfDigits_decimalDigits, natOfDigits_zeros,
        List.length_replicate, natOfDigits_zero_cons, pow_succ]
      change 10 ^ 1 * (10 ^ d.exponent.toNat * d.digits + 0) + 0 = _
      ring
    have hexponent : -(((['0'] : List Char).length : Nat) : Int) + (d.exponent.toNat + 1 : Nat) =
        d.exponent := by
      rw [List.length_singleton]
      omega
    rw [hread, ← value_shift, hexponent]
  · obtain ⟨whole, places, htext, hwhole, hplaces, hlength, hread⟩ := positional_of_neg d hsign
    have hpoint : '.' ∈ d.positional := by
      rw [htext]
      exact List.mem_append_right _ (List.mem_cons_self ..)
    have hpointed : d.pointed = whole ++ '.' :: places := by
      rw [pointed, if_neg (not_not.mpr hpoint), htext]
    refine ⟨whole, places, hpointed, hwhole, hplaces, ?_, fun hend => ?_⟩
    · rw [hread, hlength, show -(((-d.exponent).toNat : Nat) : Int) = d.exponent by omega]
    · rw [hread] at hend
      rcases hd with rfl | hlast
      · cases hsign
      · exact absurd hend hlast

/-- The digits with a point after the first, if there are more, and the exponent of the first. -/
theorem scientific_form (d : Decimal) : ∃ c places, decimalDigits d.digits = c :: places ∧
    d.scientific = c :: ((if places = [] then [] else '.' :: places) ++
      'e' :: exponentText d.topExponent) := by
  unfold scientific
  split
  · next hnil => exact absurd hnil (digits_decimalDigits d.digits).1
  · next c hone => exact ⟨c, [], hone, rfl⟩
  · next c places hmore hdigits =>
    have hne : places ≠ [] := by
      rintro rfl
      exact hmore rfl
    refine ⟨c, places, hdigits, ?_⟩
    rw [if_neg hne]
    rfl

/-- The exponent form reads back as the very decimal. -/
theorem read?_scientific (negative : Bool) (d : Decimal) :
    read? (sign negative ++ d.scientific) = some (negative, d) := by
  obtain ⟨c, places, hdigits, htext⟩ := scientific_form d
  have hread := natOfDigits_decimalDigits d.digits
  have hall := (digits_decimalDigits d.digits).2
  have hexponent : d.topExponent = (places.length + 1 : Nat) + d.exponent - 1 := by
    rw [topExponent, hdigits, List.length_cons]
  rw [hdigits] at hread hall
  have hfirst := digits_singleton c (hall c (List.mem_cons_self ..))
  have hd : (⟨natOfDigits (c :: places), d.topExponent - places.length⟩ : Decimal) = d := by
    rw [hread, show d.topExponent - places.length = d.exponent by omega]
  rw [htext]
  split
  · next hnil =>
    subst hnil
    rw [List.length_nil, Nat.cast_zero, Int.sub_zero] at hd
    have hwhole := read?_whole negative [c] (exponentText d.topExponent) d.topExponent hfirst
      (readExponent?_exponentText _)
    exact hwhole.trans (congrArg (fun d' => some (negative, d')) hd)
  · have hletter : ∀ a ∈ ('e' :: exponentText d.topExponent).head?, a.isDigit = false := by
      rintro a ⟨⟩
      decide
    have hpointed := read?_pointed negative [c] places ('e' :: exponentText d.topExponent)
      d.topExponent hfirst (fun a ha => hall a (List.mem_cons_of_mem c ha)) hletter
      (readExponent?_exponentText _)
    exact hpointed.trans (congrArg (fun d' => some (negative, d')) hd)

end Netscribe.Decimal
