import Netscribe.Text.Utf8

/-!
# Which characters a byte string is read as

`Utf8.Reads` says what the characters of a byte string are: a well-formed sequence is read as its
character, and a byte at which no such sequence starts as U+FFFD. Every byte string has exactly one
reading, which `decode` computes, and the bytes of a text are read as the text.
-/

namespace Netscribe.Utf8

inductive Reads : List UInt8 → List Char → Prop where
  | nil : Reads [] []
  | char (c : Char) {rest : List UInt8} {cs : List Char} :
      Reads rest cs → Reads (String.utf8EncodeChar c ++ rest) (c :: cs)
  | invalid (b : UInt8) {rest : List UInt8} {cs : List Char} :
      (∀ c, ¬ String.utf8EncodeChar c <+: b :: rest) → Reads rest cs →
      Reads (b :: rest) (replacement :: cs)

/-! ### The four lengths of a sequence -/

/-- The bytes `a`, `b` are the sequence of the code point `n`. -/
def IsTwo (n : Nat) (a b : UInt8) : Prop :=
  0x80 ≤ n ∧ n < 0x800 ∧ a.toNat = 0xC0 + n / 64 ∧ b.toNat = 0x80 + n % 64

/-- The bytes `a`, `b`, `c` are the sequence of the code point `n`, which is no surrogate. -/
def IsThree (n : Nat) (a b c : UInt8) : Prop :=
  0x800 ≤ n ∧ n < 0x10000 ∧ ¬ (0xD800 ≤ n ∧ n ≤ 0xDFFF) ∧
    a.toNat = 0xE0 + n / 4096 ∧ b.toNat = 0x80 + n / 64 % 64 ∧ c.toNat = 0x80 + n % 64

/-- The bytes `a`, `b`, `c`, `d` are the sequence of the code point `n`. -/
def IsFour (n : Nat) (a b c d : UInt8) : Prop :=
  0x10000 ≤ n ∧ n < 0x110000 ∧ a.toNat = 0xF0 + n / 262144 ∧ b.toNat = 0x80 + n / 4096 % 64 ∧
    c.toNat = 0x80 + n / 64 % 64 ∧ d.toNat = 0x80 + n % 64

theorem isTail_iff (b : UInt8) : isTail b = true ↔ 0x80 ≤ b.toNat ∧ b.toNat ≤ 0xBF := by
  simp only [isTail, Bool.and_eq_true, decide_eq_true_eq]

theorem tailBits_eq (b : UInt8) : tailBits b = b.toNat % 64 := rfl

theorem two?_eq_some (a b : UInt8) (x : Char × Nat) :
    sequence?.two? a.toNat b = some x ↔ ∃ n, IsTwo n a b ∧ x = (Char.ofNat n, 1) := by
  have hb := tailBits_eq b
  simp only [sequence?.two?, Option.ite_none_right_eq_some, Bool.and_eq_true, isTail_iff,
    decide_eq_true_eq, Option.some.injEq]
  constructor
  · rintro ⟨h, rfl⟩
    refine ⟨_, ?_, rfl⟩
    simp only [IsTwo]
    omega
  · rintro ⟨n, hn, rfl⟩
    simp only [IsTwo] at hn
    have he : a.toNat % 32 * 64 + tailBits b = n := by omega
    rw [he]
    exact ⟨by omega, rfl⟩

theorem three?_eq_some (a b c : UInt8) (x : Char × Nat) :
    sequence?.three? a.toNat b c = some x ↔
      (∃ n, IsThree n a b c ∧ x = (Char.ofNat n, 2)) ∨ ∃ n, IsTwo n a b ∧ x = (Char.ofNat n, 1) := by
  have hb := tailBits_eq b
  have hc := tailBits_eq c
  unfold sequence?.three?
  split
  · next h =>
    simp only [Option.ite_none_right_eq_some, Bool.and_eq_true, isTail_iff, Bool.not_eq_true',
      Bool.and_eq_false_imp, decide_eq_true_eq, decide_eq_false_iff_not, Option.some.injEq] at h ⊢
    constructor
    · rintro ⟨hn, rfl⟩
      refine .inl ⟨_, ?_, rfl⟩
      simp only [IsThree]
      omega
    · rintro (⟨n, hn, rfl⟩ | ⟨n, hn, rfl⟩)
      · simp only [IsThree] at hn
        have he : a.toNat % 16 * 4096 + tailBits b * 64 + tailBits c = n := by omega
        rw [he]
        exact ⟨by omega, rfl⟩
      · simp only [IsTwo] at hn
        omega
  · next h =>
    rw [two?_eq_some]
    constructor
    · exact .inr
    · rintro (⟨n, hn, rfl⟩ | htwo)
      · simp only [Bool.and_eq_true, isTail_iff, decide_eq_true_eq, IsThree] at h hn
        omega
      · exact htwo

theorem four_eq_some (a b c d : UInt8) (x : Char × Nat) :
    (if 0xF0 ≤ a.toNat && a.toNat ≤ 0xF4 && isTail b && isTail c && isTail d then
        let n := a.toNat % 8 * 262144 + tailBits b * 4096 + tailBits c * 64 + tailBits d
        if 0x10000 ≤ n && n ≤ 0x10FFFF then some (Char.ofNat n, 3) else none
      else sequence?.three? a.toNat b c) = some x ↔
      (∃ n, IsFour n a b c d ∧ x = (Char.ofNat n, 3)) ∨
        (∃ n, IsThree n a b c ∧ x = (Char.ofNat n, 2)) ∨ ∃ n, IsTwo n a b ∧ x = (Char.ofNat n, 1) := by
  have hb := tailBits_eq b
  have hc := tailBits_eq c
  have hd := tailBits_eq d
  split
  · next h =>
    simp only [Option.ite_none_right_eq_some, Bool.and_eq_true, isTail_iff, decide_eq_true_eq,
      Option.some.injEq] at h ⊢
    constructor
    · rintro ⟨hn, rfl⟩
      refine .inl ⟨_, ?_, rfl⟩
      simp only [IsFour]
      omega
    · rintro (⟨n, hn, rfl⟩ | ⟨n, hn, rfl⟩ | ⟨n, hn, rfl⟩)
      · simp only [IsFour] at hn
        have he : a.toNat % 8 * 262144 + tailBits b * 4096 + tailBits c * 64 + tailBits d = n := by
          omega
        rw [he]
        exact ⟨by omega, rfl⟩
      · simp only [IsThree] at hn
        omega
      · simp only [IsTwo] at hn
        omega
  · next h =>
    rw [three?_eq_some]
    constructor
    · exact .inr
    · rintro (⟨n, hn, rfl⟩ | hshorter)
      · simp only [Bool.and_eq_true, isTail_iff, decide_eq_true_eq, IsFour] at h hn
        omega
      · exact hshorter

/-- What one sequence can be. -/
theorem sequence?_eq_some (a : UInt8) (rest : List UInt8) (x : Char × Nat) :
    sequence? a rest = some x ↔
      (a.toNat < 0x80 ∧ x = (Char.ofNat a.toNat, 0)) ∨
      (∃ b more n, rest = b :: more ∧ IsTwo n a b ∧ x = (Char.ofNat n, 1)) ∨
      (∃ b c more n, rest = b :: c :: more ∧ IsThree n a b c ∧ x = (Char.ofNat n, 2)) ∨
      ∃ b c d more n, rest = b :: c :: d :: more ∧ IsFour n a b c d ∧ x = (Char.ofNat n, 3) := by
  unfold sequence?
  by_cases h : a.toNat < 0x80
  · simp only [h, if_true, Option.some.injEq, true_and]
    constructor
    · intro hx
      exact .inl hx.symm
    · rintro (rfl | ⟨b, more, n, -, hn, -⟩ | ⟨b, c, more, n, -, hn, -⟩ | ⟨b, c, d, more, n, -, hn, -⟩)
      · rfl
      · simp only [IsTwo] at hn
        omega
      · simp only [IsThree] at hn
        omega
      · simp only [IsFour] at hn
        omega
  · simp only [h, if_false, false_and, false_or]
    match rest with
    | [] => simp
    | [b] => simp [two?_eq_some]
    | [b, c] =>
      simp only [three?_eq_some, List.cons.injEq]
      constructor
      · rintro (⟨n, hn, hx⟩ | ⟨n, hn, hx⟩)
        · exact .inr (.inl ⟨b, c, [], n, ⟨rfl, rfl, rfl⟩, hn, hx⟩)
        · exact .inl ⟨b, [c], n, ⟨rfl, rfl⟩, hn, hx⟩
      · rintro (⟨b', _, n, ⟨rfl, -⟩, hn, hx⟩ | ⟨b', c', _, n, ⟨rfl, rfl, -⟩, hn, hx⟩ |
          ⟨b', c', d', _, n, ⟨-, -, hnil⟩, -⟩)
        · exact .inr ⟨n, hn, hx⟩
        · exact .inl ⟨n, hn, hx⟩
        · cases hnil
    | b :: c :: d :: more =>
      simp only [four_eq_some, List.cons.injEq]
      constructor
      · rintro (⟨n, hn, hx⟩ | ⟨n, hn, hx⟩ | ⟨n, hn, hx⟩)
        · exact .inr (.inr ⟨b, c, d, more, n, ⟨rfl, rfl, rfl, rfl⟩, hn, hx⟩)
        · exact .inr (.inl ⟨b, c, d :: more, n, ⟨rfl, rfl, rfl⟩, hn, hx⟩)
        · exact .inl ⟨b, c :: d :: more, n, ⟨rfl, rfl⟩, hn, hx⟩
      · rintro (⟨b', _, n, ⟨rfl, -⟩, hn, hx⟩ | ⟨b', c', _, n, ⟨rfl, rfl, -⟩, hn, hx⟩ |
          ⟨b', c', d', _, n, ⟨rfl, rfl, rfl, -⟩, hn, hx⟩)
        · exact .inr (.inr ⟨n, hn, hx⟩)
        · exact .inr (.inl ⟨n, hn, hx⟩)
        · exact .inl ⟨n, hn, hx⟩

/-! ### Sequences and characters -/

theorem char_toNat_cases (c : Char) : c.toNat < 0xD800 ∨ 0xDFFF < c.toNat ∧ c.toNat < 0x110000 :=
  c.valid

theorem toNat_ofNat_of_valid (n : Nat) (h : n < 0xD800 ∨ 0xDFFF < n ∧ n < 0x110000) :
    (Char.ofNat n).toNat = n := by
  have hvalid : n.isValidChar := h
  rw [Char.ofNat, dif_pos hvalid]
  rfl

theorem toNat_byte (n : Nat) (h : n < 256) : (UInt8.ofNat n).toNat = n := by
  rw [UInt8.toNat_ofNat']
  exact Nat.mod_eq_of_lt h

/-- The bytes of a character, by their number. -/
theorem utf8EncodeChar_cases (c : Char) :
    (c.toNat < 0x80 ∧ ∃ a, a.toNat = c.toNat ∧ String.utf8EncodeChar c = [a]) ∨
      (∃ a b, IsTwo c.toNat a b ∧ String.utf8EncodeChar c = [a, b]) ∨
      (∃ a b d, IsThree c.toNat a b d ∧ String.utf8EncodeChar c = [a, b, d]) ∨
      ∃ a b d e, IsFour c.toNat a b d e ∧ String.utf8EncodeChar c = [a, b, d, e] := by
  have hc := char_toNat_cases c
  have hval : c.val.toNat = c.toNat := rfl
  unfold String.utf8EncodeChar
  rw [hval]
  by_cases h1 : c.toNat ≤ 127
  · rw [if_pos h1]
    exact .inl ⟨by omega, _, toNat_byte c.toNat (by omega), rfl⟩
  · rw [if_neg h1]
    by_cases h2 : c.toNat ≤ 2047
    · rw [if_pos h2]
      refine .inr (.inl ⟨_, _, ?_, rfl⟩)
      simp only [IsTwo]
      rw [toNat_byte _ (by omega), toNat_byte _ (by omega)]
      omega
    · rw [if_neg h2]
      by_cases h3 : c.toNat ≤ 65535
      · rw [if_pos h3]
        refine .inr (.inr (.inl ⟨_, _, _, ?_, rfl⟩))
        simp only [IsThree]
        rw [toNat_byte _ (by omega), toNat_byte _ (by omega), toNat_byte _ (by omega)]
        omega
      · rw [if_neg h3]
        refine .inr (.inr (.inr ⟨_, _, _, _, ?_, rfl⟩))
        simp only [IsFour]
        rw [toNat_byte _ (by omega), toNat_byte _ (by omega), toNat_byte _ (by omega),
          toNat_byte _ (by omega)]
        omega

/-- The bytes of a character are read as that character, whatever follows. -/
theorem sequence?_of_char (c : Char) (rest : List UInt8) :
    ∃ a tail, String.utf8EncodeChar c = a :: tail ∧
      sequence? a (tail ++ rest) = some (c, tail.length) := by
  have hof : Char.ofNat c.toNat = c := Char.ofNat_toNat c
  rcases utf8EncodeChar_cases c with ⟨hn, a, ha, he⟩ | ⟨a, b, hn, he⟩ | ⟨a, b, d, hn, he⟩ |
    ⟨a, b, d, e, hn, he⟩
  · refine ⟨a, [], he, (sequence?_eq_some a _ _).mpr (.inl ⟨by omega, ?_⟩)⟩
    rw [ha, hof]
    rfl
  · refine ⟨a, [b], he, (sequence?_eq_some a _ _).mpr (.inr (.inl ⟨b, rest, _, rfl, hn, ?_⟩))⟩
    rw [hof]
    rfl
  · refine ⟨a, [b, d], he,
      (sequence?_eq_some a _ _).mpr (.inr (.inr (.inl ⟨b, d, rest, _, rfl, hn, ?_⟩)))⟩
    rw [hof]
    rfl
  · refine ⟨a, [b, d, e], he,
      (sequence?_eq_some a _ _).mpr (.inr (.inr (.inr ⟨b, d, e, rest, _, rfl, hn, ?_⟩)))⟩
    rw [hof]
    rfl

theorem byte_eq (a : UInt8) (n : Nat) (h : a.toNat = n) : UInt8.ofNat n = a := by
  rw [← h]
  exact UInt8.ofNat_toNat

theorem utf8EncodeChar_of_isTwo (n : Nat) (a b : UInt8) (h : IsTwo n a b) :
    String.utf8EncodeChar (Char.ofNat n) = [a, b] := by
  simp only [IsTwo] at h
  have hval : (Char.ofNat n).val.toNat = n := toNat_ofNat_of_valid n (by omega)
  unfold String.utf8EncodeChar
  rw [hval, if_neg (by omega), if_pos (by omega)]
  rw [byte_eq a _ (by omega), byte_eq b _ (by omega)]

theorem utf8EncodeChar_of_isThree (n : Nat) (a b c : UInt8) (h : IsThree n a b c) :
    String.utf8EncodeChar (Char.ofNat n) = [a, b, c] := by
  simp only [IsThree] at h
  have hval : (Char.ofNat n).val.toNat = n := toNat_ofNat_of_valid n (by omega)
  unfold String.utf8EncodeChar
  rw [hval, if_neg (by omega), if_neg (by omega), if_pos (by omega)]
  rw [byte_eq a _ (by omega), byte_eq b _ (by omega), byte_eq c _ (by omega)]

theorem utf8EncodeChar_of_isFour (n : Nat) (a b c d : UInt8) (h : IsFour n a b c d) :
    String.utf8EncodeChar (Char.ofNat n) = [a, b, c, d] := by
  simp only [IsFour] at h
  have hval : (Char.ofNat n).val.toNat = n := toNat_ofNat_of_valid n (by omega)
  unfold String.utf8EncodeChar
  rw [hval, if_neg (by omega), if_neg (by omega), if_neg (by omega)]
  rw [byte_eq a _ (by omega), byte_eq b _ (by omega), byte_eq c _ (by omega),
    byte_eq d _ (by omega)]

/-- What is read as a character is the character's own sequence. -/
theorem char_of_sequence? (a : UInt8) (rest : List UInt8) (c : Char) (k : Nat)
    (h : sequence? a rest = some (c, k)) :
    a :: rest = String.utf8EncodeChar c ++ rest.drop k := by
  rcases (sequence?_eq_some a rest _).mp h with ⟨ha, hx⟩ | ⟨b, more, n, rfl, hn, hx⟩ |
    ⟨b, d, more, n, rfl, hn, hx⟩ | ⟨b, d, e, more, n, rfl, hn, hx⟩
  · obtain ⟨rfl, rfl⟩ := Prod.mk.inj hx
    have hval : (Char.ofNat a.toNat).val.toNat = a.toNat :=
      toNat_ofNat_of_valid a.toNat (by omega)
    unfold String.utf8EncodeChar
    rw [hval, if_pos (by omega), byte_eq a _ rfl]
    rfl
  · obtain ⟨rfl, rfl⟩ := Prod.mk.inj hx
    rw [utf8EncodeChar_of_isTwo n a b hn]
    rfl
  · obtain ⟨rfl, rfl⟩ := Prod.mk.inj hx
    rw [utf8EncodeChar_of_isThree n a b d hn]
    rfl
  · obtain ⟨rfl, rfl⟩ := Prod.mk.inj hx
    rw [utf8EncodeChar_of_isFour n a b d e hn]
    rfl

theorem sequence?_eq_none (b : UInt8) (rest : List UInt8) :
    sequence? b rest = none ↔ ∀ c, ¬ String.utf8EncodeChar c <+: b :: rest := by
  constructor
  · rintro hnone c ⟨more, hmore⟩
    obtain ⟨a, tail, he, hsome⟩ := sequence?_of_char c more
    rw [he, List.cons_append] at hmore
    obtain ⟨rfl, rfl⟩ := List.cons.inj hmore
    rw [hnone] at hsome
    cases hsome
  · intro hall
    rw [Option.eq_none_iff_forall_ne_some]
    rintro ⟨c, k⟩ hsome
    exact hall c ⟨rest.drop k, (char_of_sequence? b rest c k hsome).symm⟩

/-! ### Whole byte strings -/

theorem piecesFrom_drop (k : Nat) (bs : List UInt8) : piecesFrom k bs = pieces (bs.drop k) := by
  induction bs generalizing k with
  | nil =>
    rw [List.drop_nil]
    cases k <;> rfl
  | cons b rest ih =>
    cases k with
    | zero => rfl
    | succ k => exact ih k

theorem decode_char (c : Char) (rest : List UInt8) :
    decode (String.utf8EncodeChar c ++ rest) = c :: decode rest := by
  obtain ⟨a, tail, he, hsome⟩ := sequence?_of_char c rest
  rw [he, decode, pieces, List.cons_append, piecesFrom, hsome]
  dsimp only
  rw [piecesFrom_drop, List.drop_left]
  rfl

theorem decode_invalid (b : UInt8) (rest : List UInt8)
    (h : ∀ c, ¬ String.utf8EncodeChar c <+: b :: rest) :
    decode (b :: rest) = replacement :: decode rest := by
  have hnone := (sequence?_eq_none b rest).mpr h
  rw [decode, pieces, piecesFrom, hnone]
  rfl

theorem pieces_ascii (a : UInt8) (rest : List UInt8) (h : a.toNat < 0x80) :
    pieces (a :: rest) = (Char.ofNat a.toNat, [a]) :: pieces rest := by
  have hsome : sequence? a rest = some (Char.ofNat a.toNat, 0) :=
    (sequence?_eq_some a rest _).mpr (.inl ⟨h, rfl⟩)
  rw [pieces, piecesFrom, hsome]
  rfl

theorem decode_ascii (a : UInt8) (rest : List UInt8) (h : a.toNat < 0x80) :
    decode (a :: rest) = Char.ofNat a.toNat :: decode rest := by
  rw [decode, pieces_ascii a rest h]
  rfl

/-- The first character takes the first byte. -/
theorem exists_pieces_cons (a : UInt8) (rest : List UInt8) :
    ∃ c bs more, pieces (a :: rest) = (c, a :: bs) :: more := by
  rw [pieces, piecesFrom]
  split <;> exact ⟨_, _, _, rfl⟩

/-- A byte beyond ASCII starts a character beyond ASCII, or is read as one. -/
theorem exists_decode_cons (a : UInt8) (rest : List UInt8) (h : 0x80 ≤ a.toNat) :
    ∃ c cs, decode (a :: rest) = c :: cs ∧ 0x80 ≤ c.toNat := by
  cases hs : sequence? a rest with
  | none =>
    rw [decode_invalid a rest ((sequence?_eq_none a rest).mp hs)]
    exact ⟨_, _, rfl, by decide⟩
  | some x =>
    obtain ⟨c, k⟩ := x
    have hbytes := char_of_sequence? a rest c k hs
    refine ⟨c, decode (rest.drop k), by rw [hbytes, decode_char], ?_⟩
    rcases utf8EncodeChar_cases c with ⟨-, b, hb, he⟩ | ⟨_, _, hn, -⟩ | ⟨_, _, _, hn, -⟩ |
      ⟨_, _, _, _, hn, -⟩
    · rw [he] at hbytes
      obtain ⟨rfl, -⟩ := List.cons.inj hbytes
      omega
    · exact hn.1
    · exact Nat.le_trans (by decide) hn.1
    · exact Nat.le_trans (by decide) hn.1

/-- A byte string has one reading, its decoding. -/
theorem reads_iff (bs : List UInt8) (cs : List Char) : Reads bs cs ↔ cs = decode bs := by
  constructor
  · intro h
    induction h with
    | nil => rfl
    | char c _ ih => rw [decode_char, ih]
    | invalid b hb _ ih => rw [decode_invalid b _ hb, ih]
  · rintro rfl
    induction hlen : bs.length using Nat.strongRecOn generalizing bs with
    | ind n ih =>
      subst hlen
      cases bs with
      | nil => exact .nil
      | cons b rest =>
        cases hs : sequence? b rest with
        | none =>
          have hall := (sequence?_eq_none b rest).mp hs
          rw [decode_invalid b rest hall]
          exact .invalid b hall (ih rest.length (by simp) rest rfl)
        | some x =>
          obtain ⟨c, k⟩ := x
          rw [char_of_sequence? b rest c k hs, decode_char]
          refine .char c (ih (rest.drop k).length ?_ (rest.drop k) rfl)
          rw [List.length_drop, List.length_cons]
          omega

theorem toList_loop (bs : ByteArray) (i : Nat) (taken : List UInt8) :
    ByteArray.toList.loop bs i taken = taken.reverse ++ bs.data.toList.drop i := by
  fun_induction ByteArray.toList.loop bs i taken with
  | case1 i taken h ih =>
    have hi : i < bs.data.toList.length := by simpa using h
    rw [ih, List.drop_eq_getElem_cons hi]
    simp [ByteArray.get!, h]
  | case2 i taken h =>
    have hi : bs.data.toList.length ≤ i := by simpa using Nat.le_of_not_lt h
    rw [List.drop_eq_nil_of_le hi]
    simp

theorem encode_eq_flatMap (s : String) : encode s = s.toList.flatMap String.utf8EncodeChar := by
  have hbytes : s.toUTF8 = (s.toList.flatMap String.utf8EncodeChar).toByteArray := by
    rw [String.toUTF8_eq_toByteArray, ← String.utf8Encode_toList]
    rfl
  rw [encode, hbytes, ByteArray.toList, toList_loop, List.toList_data_toByteArray]
  rfl

/-- The bytes of a text are read as the text. -/
theorem text_encode (s : String) : text (encode s) = s := by
  have hdecode : ∀ cs : List Char, decode (cs.flatMap String.utf8EncodeChar) = cs := by
    intro cs
    induction cs with
    | nil => rfl
    | cons c rest ih => rw [List.flatMap_cons, decode_char, ih]
  rw [text, encode_eq_flatMap, hdecode, String.ofList_toList]

theorem decode_encode (s : String) : decode (encode s) = s.toList := by
  have htext := congrArg String.toList (text_encode s)
  rwa [text, String.toList_ofList] at htext

theorem encode_injective (s t : String) (h : encode s = encode t) : s = t := by
  rw [← text_encode s, h, text_encode]

theorem isEmpty_encode (s : String) : (encode s).isEmpty = s.isEmpty := by
  have hnil : encode "" = [] := by
    rw [encode_eq_flatMap]
    rfl
  rw [Bool.eq_iff_iff, List.isEmpty_iff, String.isEmpty_iff, ← hnil]
  constructor
  · exact encode_injective s ""
  · rintro rfl
    rfl

/-- The text of ASCII bytes has these bytes. -/
theorem encode_text_of_ascii (bs : List UInt8) (h : ∀ b ∈ bs, b.toNat < 0x80) :
    encode (text bs) = bs := by
  rw [encode_eq_flatMap, text, String.toList_ofList]
  induction bs with
  | nil => rfl
  | cons b rest ih =>
    obtain ⟨hb, hrest⟩ := List.forall_mem_cons.mp h
    have hsome : sequence? b rest = some (Char.ofNat b.toNat, 0) :=
      (sequence?_eq_some b rest _).mpr (.inl ⟨hb, rfl⟩)
    have hbytes := char_of_sequence? b rest _ 0 hsome
    rw [decode_ascii b rest hb, List.flatMap_cons, ih hrest]
    exact hbytes.symm

end Netscribe.Utf8
