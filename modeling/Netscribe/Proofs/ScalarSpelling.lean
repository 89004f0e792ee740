import Netscribe.Proofs.Rounding
import Netscribe.Yaml.Scalar

/-!
# Numbers as plain scalars

An integer in decimal digits, and a float with a point, an exponent or as a word, is spelled so that
the scalar is this number again: no word has a digit, no date follows its first digits with anything
but a hyphen, and no integer has a point or an `e`. A plain scalar is tagged by its spelling, and its
tag never changes what it spells.
-/

namespace Netscribe

/-- The first digit of a positive number is no zero. -/
theorem decimalDigits_eq_cons (n : Nat) (h : 0 < n) :
    ∃ c ds, decimalDigits n = c :: ds ∧ c ≠ '0' := by
  induction n using Nat.strongRecOn with
  | ind n ih =>
    rcases Nat.lt_or_ge n 10 with hlt | hge
    · refine ⟨Nat.digitChar n, [], Nat.toDigits_of_lt_base hlt, ?_⟩
      have hdigits : ∀ d < 10, 0 < d → Nat.digitChar d ≠ '0' := by decide
      exact hdigits n hlt h
    · obtain ⟨c, ds, hlead, hc⟩ := ih (n / 10) (by omega) (by omega)
      refine ⟨c, ds ++ [Nat.digitChar (n % 10)], ?_, hc⟩
      have hsplit : decimalDigits n = decimalDigits (n / 10) ++ [Nat.digitChar (n % 10)] :=
        Nat.toDigits_of_base_le (by decide) hge
      rw [hsplit, hlead, List.cons_append]

/-- The number, with the NaN that reading gives in place of any other. -/
def Binary64.oneNaN (x : Binary64) : Binary64 := if x.isNaN then nan else x

end Netscribe

namespace Netscribe.Yaml

open Decimal (Digits sign)

theorem Timestamp.read?_eq_none (negative : Bool) (ds rest : List Char) (hds : Digits ds)
    (hrest : ∀ c ∈ rest.head?, c.isDigit = false ∧ c ≠ '-') :
    Timestamp.read? (sign negative ++ (ds ++ rest)) = none := by
  have hdate : Timestamp.date? (sign negative ++ (ds ++ rest)) = none := by
    cases negative with
    | true => rfl
    | false =>
      have htake := (Decimal.span_digits ds rest hds.2 fun c hc => (hrest c hc).1).1
      simp only [sign, Bool.false_eq_true, if_false, List.nil_append, Timestamp.date?, htake]
      by_cases hfour : ds.length = 4
      · have hdrop : (ds ++ rest).drop 4 = rest := by
          rw [← hfour, List.drop_left]
        have hafter : Timestamp.after? '-' rest = none := by
          cases rest with
          | nil => rfl
          | cons c rest => exact if_neg fun h => (hrest c rfl).2 h.symm
        rw [if_neg (not_not.mpr hfour), hdrop, hafter]
        rfl
      · rw [if_pos hfour]
        rfl
  rw [Timestamp.read?, hdate]
  rfl

namespace Scalar

/-! ### Integers -/

theorem natFrom?_eq_none (base : Nat) (c : Char) (h : digit? base c = none) (cs : List Char)
    (hmem : c ∈ cs) : ∀ n, natFrom? base n cs = none := by
  induction cs with
  | nil => cases hmem
  | cons a rest ih =>
    intro n
    rcases List.mem_cons.mp hmem with rfl | hrest
    · rw [natFrom?, h]
    · rw [natFrom?]
      cases digit? base a with
      | none => rfl
      | some d => exact ih hrest _

theorem digit?_of_isDigit (c : Char) (h : c.isDigit = true) : digit? 10 c = some (c.toNat - 48) := by
  have hbounds : 48 ≤ c.toNat ∧ c.toNat ≤ 57 := Char.isDigit_iff_toNat.mp h
  rw [digit?, if_pos h, if_pos (by omega)]

theorem natFrom?_digits (ds : List Char) (hds : ∀ c ∈ ds, c.isDigit = true) (n : Nat) :
    natFrom? 10 n ds = some (ds.foldl (fun n c => 10 * n + (c.toNat - 48)) n) := by
  induction ds generalizing n with
  | nil => rfl
  | cons c ds ih =>
    have hc := digit?_of_isDigit c (hds c (List.mem_cons_self ..))
    rw [natFrom?, hc, Nat.mul_comm]
    exact ih (fun a ha => hds a (List.mem_cons_of_mem c ha)) _

theorem literal?_decimalDigits (n : Nat) : literal? (decimalDigits n) = some n := by
  rcases Nat.eq_zero_or_pos n with rfl | hpos
  · decide
  · obtain ⟨c, ds, hdigits, hc⟩ := decimalDigits_eq_cons n hpos
    have hread : natFrom? 10 0 (decimalDigits n) = some (Decimal.natOfDigits (decimalDigits n)) :=
      natFrom?_digits _ (Decimal.digits_decimalDigits n).2 0
    rw [Decimal.natOfDigits_decimalDigits, hdigits] at hread
    rw [hdigits, literal?]
    · exact hread
    · rintro x y rest ⟨⟩
      exact hc rfl
    · rintro rest ⟨⟩
      exact hc rfl

theorem base_not_mem_of_plain (c : Char) (h : Literal.Plain c) :
    c ∉ ['b', 'B', 'o', 'O', 'x', 'X'] := by
  intro hbase
  simp only [List.mem_cons, List.not_mem_nil, or_false] at hbase
  unfold Literal.Plain at h
  revert h
  rcases hbase with rfl | rfl | rfl | rfl | rfl | rfl <;> decide

/-- A point or an `e` is no digit below sixteen, and a text without the letter of a base has none of
sixteen. -/
theorem literal?_eq_none (cs : List Char) (hplain : ∀ c ∈ cs, Literal.Plain c)
    (hmark : '.' ∈ cs ∨ 'e' ∈ cs) : literal? cs = none := by
  have hnone (base : Nat) (hbase : base ∈ [8, 10]) (rest : List Char)
      (hrest : '.' ∈ rest ∨ 'e' ∈ rest) (n : Nat) : natFrom? base n rest = none := by
    have hdigit : ∀ base ∈ [8, 10], digit? base '.' = none ∧ digit? base 'e' = none := by decide
    obtain ⟨hpoint, hletter⟩ := hdigit base hbase
    rcases hrest with h | h
    · exact natFrom?_eq_none base '.' hpoint rest h n
    · exact natFrom?_eq_none base 'e' hletter rest h n
  unfold literal?
  split
  · next x y rest =>
    have hbase := base_not_mem_of_plain x (hplain x (by simp))
    simp only [List.mem_cons, List.not_mem_nil, or_false, not_or] at hbase
    obtain ⟨hb, hB, ho, hO, hx, hX⟩ := hbase
    simp only [hb, hB, ho, hO, hx, hX, or_self, if_false]
    refine hnone 8 (by decide) _ ?_ 0
    simpa using hmark
  · next rest _ =>
    refine hnone 8 (by decide) _ ?_ 0
    simpa using hmark
  · rw [nat?]
    split
    · rfl
    · exact hnone 10 (by decide) _ hmark 0

/-! ### Signs -/

theorem signed?_sign (read : List Char → Option Nat) (negative : Bool) (ds rest : List Char)
    (hds : Digits ds) :
    signed? read (sign negative ++ (ds ++ rest)) = (read (ds ++ rest)).bind fun n =>
      if negative then if n ≤ signedEnd then some (-(n : Int)) else none
      else if n < 2 * signedEnd then some (n : Int) else none := by
  cases negative with
  | true => rfl
  | false =>
    obtain ⟨hne, hall⟩ := hds
    cases ds with
    | nil => exact absurd rfl hne
    | cons c ds =>
      have hc := hall c (List.mem_cons_self ..)
      change signed? read (c :: (ds ++ rest)) = _
      rw [signed?]
      · rfl
      · rintro more ⟨⟩
        cases hc
      · rintro more ⟨⟩
        cases hc

/-! ### Spellings -/

theorem lookup_words_eq_none (s : String) (c : Char) (hc : c.isDigit = true) (hmem : c ∈ s.toList) :
    words.lookup s = none := by
  have hwords : ∀ p ∈ words, p.1.toList.any Char.isDigit = false := by decide
  rw [List.lookup_eq_none_iff]
  intro p hp
  rw [bne_iff_ne]
  rintro rfl
  have hdigit := List.any_eq_true.mpr ⟨c, hmem, hc⟩
  rw [hwords p hp] at hdigit
  cases hdigit

/-- A text of digits that goes on neither with a digit nor with a hyphen is a number and no date. -/
theorem ofSpelling_number (times : Bool) (s : String) (negative : Bool) (ds rest : List Char)
    (v : Scalar) (htext : s.toList = sign negative ++ (ds ++ rest)) (hds : Digits ds)
    (hrest : ∀ c ∈ rest.head?, c.isDigit = false ∧ c ≠ '-')
    (h : number? s.toList = some v) : ofSpelling times s = v := by
  have htime := Timestamp.read?_eq_none negative ds rest hds hrest
  obtain ⟨c, ds', rfl⟩ := List.exists_cons_of_ne_nil hds.1
  have hc := hds.2 c (List.mem_cons_self ..)
  have hmem : c ∈ s.toList := by
    simp only [htext, List.mem_append, List.mem_cons, true_or, or_true]
  rw [ofSpelling, lookup_words_eq_none s c hc hmem]
  rw [← htext] at htime
  cases negative with
  | true =>
    rw [show s.toList = '-' :: (c :: ds' ++ rest) from htext] at h htime ⊢
    dsimp only
    rw [if_neg (by decide), if_pos (by decide), htime, ite_self, h]
  | false =>
    have hpoint : c ≠ '.' := by
      rintro rfl
      cases hc
    rw [show s.toList = c :: (ds' ++ rest) from htext] at h htime ⊢
    dsimp only
    rw [if_neg hpoint, if_pos (.inl hc), htime, ite_self, h]

theorem filter_of_plain (cs : List Char) (hplain : ∀ c ∈ cs, Literal.Plain c) :
    cs.filter (· != '_') = cs := by
  have hunderscore : ¬ Literal.Plain '_' := by
    unfold Literal.Plain
    decide
  rw [List.filter_eq_self]
  intro c hc
  rw [bne_iff_ne]
  rintro rfl
  exact hunderscore (hplain _ hc)

theorem ofSpelling_decimalText (times : Bool) (i : Int) (hleast : -(signedEnd : Int) ≤ i)
    (hmost : i < 2 * signedEnd) : ofSpelling times (decimalText i) = .int i := by
  have hdigits := Decimal.digits_decimalDigits i.natAbs
  have htext : (decimalText i).toList =
      sign (decide (i < 0)) ++ (decimalDigits i.natAbs ++ []) := by
    rw [decimalText_toList, List.append_nil]
    by_cases hneg : i < 0
    · rw [if_pos hneg, decide_eq_true hneg]
      rfl
    · rw [if_neg hneg, decide_eq_false hneg]
      rfl
  have hplain : ∀ c ∈ (decimalText i).toList, Literal.Plain c := by
    intro c hc
    rw [htext, List.append_nil] at hc
    rcases List.mem_append.mp hc with h | h
    · exact Literal.plain_sign _ c h
    · exact .inl (hdigits.2 c h)
  refine ofSpelling_number _ _ _ _ _ _ htext hdigits (by simp) ?_
  rw [number?, filter_of_plain _ hplain, htext, signed?_sign _ _ _ _ hdigits, List.append_nil,
    literal?_decimalDigits]
  by_cases hneg : i < 0
  · have hfits : i.natAbs ≤ signedEnd := by omega
    have hvalue : -(i.natAbs : Int) = i := by omega
    simp only [hneg, decide_true, if_true, Option.bind_some, hfits, hvalue]
  · have hfits : i.natAbs < 2 * signedEnd := by omega
    have hvalue : (i.natAbs : Int) = i := by omega
    simp only [hneg, decide_false, Bool.false_eq_true, if_false, Option.bind_some, hfits, if_true,
      hvalue]

/-- A float literal starts with digits and a point or an `e`. -/
theorem float_lead (cs : List Char) (h : Literal.IsPositional cs ∨ Literal.IsScientific cs) :
    ∃ negative ds mark more, Digits ds ∧ (mark = '.' ∨ mark = 'e') ∧
      cs = sign negative ++ (ds ++ mark :: more) := by
  rcases h with ⟨negative, whole, places, hwhole, -, rfl⟩ |
    ⟨negative, c, places, s, ds, hc, -, -, -, -, rfl⟩
  · exact ⟨negative, whole, '.', places, hwhole, .inl rfl, rfl⟩
  · have hdigit := Decimal.digits_singleton c hc
    cases places with
    | nil => exact ⟨negative, [c], 'e', s :: ds, hdigit, .inr rfl, rfl⟩
    | cons p places =>
      exact ⟨negative, [c], '.', p :: places ++ 'e' :: s :: ds, hdigit, .inl rfl, rfl⟩

theorem decimal?_float (x : Binary64) (h : x.isFinite = true) :
    decimal? (Literal.float x).toList = some x := by
  obtain ⟨⟨d, hread, hvalue, -⟩, -⟩ := Literal.float_cases x h
  have hnearest := (Decimal.shortest_reads_back x h).1
  rw [← hvalue] at hnearest
  rw [decimal?, hread]
  refine Decimal.toBinary64?_eq_some x d h hnearest fun hzero => ?_
  have hnone : d.value = 0 := by
    rw [hvalue, Decimal.shortest, if_pos hzero, Decimal.value, Nat.cast_zero, zero_mul]
  rw [Decimal.value, mul_eq_zero] at hnone
  exact Nat.cast_eq_zero.mp (hnone.resolve_right (Decimal.ten_zpow_pos _).ne')

theorem ofSpelling_float (times : Bool) (x : Binary64) (h : x.isFinite = true) :
    ofSpelling times (Literal.float x) = .float x := by
  have hread := decimal?_float x h
  obtain ⟨-, hform⟩ := Literal.float_cases x h
  have hplain : ∀ c ∈ (Literal.float x).toList, Literal.Plain c :=
    hform.elim (fun hp => hp.1.plain) fun hs => hs.1.plain
  obtain ⟨negative, ds, mark, more, hds, hmark, htext⟩ :=
    float_lead _ (hform.imp And.left And.left)
  refine ofSpelling_number _ _ _ _ _ _ htext hds ?_ ?_
  · rintro c ⟨⟩
    rcases hmark with rfl | rfl <;> decide
  · rw [number?, filter_of_plain _ hplain, hread]
    rw [htext] at hplain ⊢
    have hliteral : literal? (ds ++ mark :: more) = none := by
      refine literal?_eq_none _ (fun c hc => hplain c (List.mem_append_right _ hc)) ?_
      rcases hmark with rfl | rfl <;> simp
    rw [signed?_sign _ _ _ _ hds, hliteral, Option.bind_none]

def floatLayout : Decimal.Layout :=
  { Literal.floatLayout with nan := ".nan", infinity := ".inf", negativeInfinity := "-.inf" }

theorem render_of_isFinite (x : Binary64) (h : x.isFinite = true) :
    x.render floatLayout = Literal.float x := by
  have hnan := Binary64.isNaN_of_isFinite x h
  have hinfinite : x.isInfinite = false := by
    rw [Binary64.isInfinite, decide_eq_false (of_decide_eq_true h), Bool.false_and]
  simp only [Literal.float, Binary64.render, hnan, hinfinite, Bool.false_eq_true, if_false]
  rfl

theorem ofSpelling_render (times : Bool) (x : Binary64) :
    ofSpelling times (x.render floatLayout) = .float x.oneNaN := by
  cases hfinite : x.isFinite with
  | true =>
    have hsame : x.oneNaN = x := if_neg (by simp [Binary64.isNaN_of_isFinite x hfinite])
    rw [render_of_isFinite x hfinite, ofSpelling_float times x hfinite, hsame]
  | false =>
    have hfield : x.field = 2047 := not_not.mp (of_decide_eq_false hfinite)
    cases hnan : x.isNaN with
    | true =>
      rw [Binary64.render, if_pos hnan, Binary64.oneNaN, if_pos hnan]
      rfl
    | false =>
      have hfraction : x.fraction = 0 := by
        simpa [Binary64.isNaN, hfield] using hnan
      have hinfinity : Binary64.infinity x.negative = x := by
        rw [Binary64.infinity, ← hfield, ← hfraction, Binary64.ofParts_eq]
      have hinfinite : x.isInfinite = true := by
        rw [Binary64.isInfinite, hfield, hfraction]
        rfl
      rw [Binary64.render, Binary64.oneNaN, hnan, hinfinite, ← hinfinity]
      cases x.negative with
      | true => rfl
      | false => rfl

/-! ### Tags -/

theorem ofSpelling_false (s : String) (h : (ofSpelling true s).tag ≠ Tag.timestamp) :
    ofSpelling false s = ofSpelling true s := by
  unfold ofSpelling at h ⊢
  cases hword : words.lookup s with
  | some v => rfl
  | none =>
    rw [hword] at h
    cases hs : s.toList with
    | nil => rfl
    | cons c rest =>
      rw [hs] at h
      dsimp only at h ⊢
      cases htime : Timestamp.read? (c :: rest) with
      | none => rfl
      | some t =>
        rw [htime] at h
        by_cases hpoint : c = '.'
        · rw [if_pos hpoint, if_pos hpoint]
        · by_cases hlead : c.isDigit ∨ c = '+' ∨ c = '-'
          · rw [if_neg hpoint, if_pos hlead] at h
            exact absurd rfl h
          · rw [if_neg hpoint, if_neg hpoint, if_neg hlead, if_neg hlead]

/-- A scalar with the tag of a type is what it spells, if that is of the type; an integer under the
tag of floats is made a float. -/
theorem resolve_typed (tag s : String) (h : tag ∈ [Tag.null, Tag.bool, Tag.int, Tag.float])
    (v : Scalar) : resolve tag s = .ok v ↔
      (ofSpelling false s = v ∧ v.tag = tag) ∨
        ∃ i, ofSpelling false s = .int i ∧ tag = Tag.float ∧ i < signedEnd ∧ v = .float (.ofInt i) := by
  have htyped : ∀ tag ∈ [Tag.null, Tag.bool, Tag.int, Tag.float],
      tag ≠ Tag.timestamp ∧ tag ≠ Tag.str ∧
        [Tag.null, Tag.bool, Tag.int, Tag.float, Tag.timestamp].contains tag = true := by decide
  obtain ⟨htime, hstr, hlisted⟩ := htyped tag h
  rw [resolve, if_neg hstr, if_pos hlisted, decide_eq_false htime]
  generalize ofSpelling false s = w
  by_cases hsame : w.tag = tag
  · rw [if_pos hsame, Except.ok.injEq]
    constructor
    · rintro rfl
      exact .inl ⟨rfl, hsame⟩
    · rintro (⟨rfl, -⟩ | ⟨i, rfl, rfl, -⟩)
      · rfl
      · exact absurd hsame (show Tag.int ≠ Tag.float by decide)
  · rw [if_neg hsame]
    constructor
    · intro hread
      split at hread
      · next i =>
        split at hread
        · next hfloat =>
          cases hread
          exact .inr ⟨i, rfl, hfloat.1, hfloat.2, rfl⟩
        · cases hread
      · cases hread
    · rintro (⟨rfl, htag⟩ | ⟨i, rfl, hfloat, hmost, rfl⟩)
      · exact absurd htag hsame
      · exact if_pos ⟨hfloat, hmost⟩

theorem resolve_tag (s : String)
    (h : (ofSpelling true s).tag ∈ [Tag.null, Tag.bool, Tag.int, Tag.float]) :
    resolve (ofSpelling true s).tag s = .ok (ofSpelling true s) := by
  have htime : ∀ tag ∈ [Tag.null, Tag.bool, Tag.int, Tag.float], tag ≠ Tag.timestamp := by decide
  exact (resolve_typed _ s h _).mpr (.inl ⟨ofSpelling_false s (htime _ h), rfl⟩)

theorem tag_of_resolve (tag s : String) (v : Scalar)
    (htag : tag ∈ [Tag.null, Tag.bool, Tag.int, Tag.float]) (h : resolve tag s = .ok v) :
    v.tag = tag := by
  rcases (resolve_typed tag s htag v).mp h with ⟨-, hsame⟩ | ⟨i, -, hfloat, -, rfl⟩
  · exact hsame
  · exact hfloat.symm

/-! ### The least integer -/

theorem signed?_least (read : List Char → Option Nat) (cs : List Char) (i : Int)
    (h : signed? read cs = some i) : -(signedEnd : Int) ≤ i := by
  unfold signed? at h
  split at h
  all_goals
    obtain ⟨n, -, hn⟩ := Option.bind_eq_some_iff.mp h
    split at hn
    · cases hn
      omega
    · cases hn

theorem number?_least (cs : List Char) (i : Int) (h : number? cs = some (.int i)) :
    -(signedEnd : Int) ≤ i := by
  unfold number? at h
  dsimp only at h
  split at h
  · next j hj =>
    cases h
    exact signed?_least _ _ _ hj
  · split at h
    · cases h
    · obtain ⟨j, hj, heq⟩ := Option.map_eq_some_iff.mp h
      cases heq
      unfold integer? at hj
      split at hj
      · next k hk =>
        cases hj
        exact signed?_least _ _ _ hk
      · split at hj
        · exact signed?_least _ _ _ hj
        · exact signed?_least _ _ _ hj
        · cases hj

theorem ofSpelling_least (times : Bool) (s : String) (i : Int) (h : ofSpelling times s = .int i) :
    -(signedEnd : Int) ≤ i := by
  have hwords : ∀ p ∈ words, p.2.tag ≠ Tag.int := by decide
  unfold ofSpelling at h
  split at h
  · next v hv =>
    obtain ⟨l₁, l₂, hlist, -⟩ := List.lookup_eq_some_iff.mp hv
    have hmem : (s, v) ∈ words := by
      rw [hlist]
      simp
    rw [h] at hmem
    exact absurd rfl (hwords _ hmem)
  · split at h
    · cases h
    · split at h
      · split at h <;> cases h
      · split at h
        · split at h
          · cases h
          · next hv =>
            rw [h] at hv
            exact number?_least _ _ hv
          · cases h
        · cases h

theorem resolve_least (tag s : String) (i : Int) (h : resolve tag s = .ok (.int i)) :
    -(signedEnd : Int) ≤ i := by
  unfold resolve at h
  split at h
  · cases h
  · split at h
    · dsimp only at h
      split at h
      · exact ofSpelling_least _ _ _ (Except.ok.inj h)
      · split at h
        · split at h <;> cases h
        · cases h
    · split at h
      · split at h <;> cases h
      · cases h

end Scalar

end Netscribe.Yaml
