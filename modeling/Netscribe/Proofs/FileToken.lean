import Mathlib.Data.List.Basic
import Netscribe.Generation
import Netscribe.Proofs.PathText
import Netscribe.Proofs.Utf8

/-!
# Tokens for file names

Whatever snake case makes of a name, what comes after it leaves the letters and digits of the text in
lower case, in words with one underscore between them. Underscores are taken off at the ends first and
runs of them are shortened then, so it matters that shortening keeps the first and the last character.
`Collapses` is the shortening in passes, each of which writes one underscore for every two, until no
two stand together; it ends because every pass makes the text shorter.
-/

namespace Netscribe.Naming

/-! ### Runs of underscores -/

def Doubled (cs : List Char) : Prop := ['_', '_'] <:+: cs

/-- One pass from left to right that writes one underscore for every two. -/
def mergePairs : List Char → List Char
  | '_' :: '_' :: rest => '_' :: mergePairs rest
  | c :: rest => c :: mergePairs rest
  | [] => []

/-- Passes as long as two underscores stand together lead from one text to another. -/
inductive Collapses : List Char → List Char → Prop
  | stop {cs : List Char} (h : ¬ Doubled cs) : Collapses cs cs
  | pass {cs ds : List Char} (h : Doubled cs) (rest : Collapses (mergePairs cs) ds) : Collapses cs ds

theorem doubled_cons (c : Char) (rest : List Char) :
    Doubled (c :: rest) ↔ (c = '_' ∧ rest.head? = some '_') ∨ Doubled rest := by
  unfold Doubled
  rw [List.infix_cons_iff]
  cases rest with
  | nil => simp
  | cons d more => simp [eq_comm]

theorem head?_collapse (cs : List Char) : (collapse cs).head? = cs.head? := by
  cases cs with
  | nil => rfl
  | cons c rest =>
    rw [collapse]
    split
    · next hc =>
      obtain rfl : c = '_' := by simpa using hc
      split <;> rfl
    · rfl

theorem collapse_cons (c : Char) (rest : List Char) :
    collapse (c :: rest) =
      if c = '_' ∧ rest.head? = some '_' then collapse rest else c :: collapse rest := by
  have hhead := head?_collapse rest
  rw [collapse]
  by_cases hc : c = '_'
  · subst hc
    simp only [beq_self_eq_true, if_true, true_and, ← hhead]
    split
    · next more hmore => simp [hmore]
    · next hother =>
      split
      · next hfirst =>
        obtain ⟨more, hmore⟩ := List.head?_eq_some_iff.mp hfirst
        exact absurd hmore (hother more)
      · rfl
  · simp [hc]

theorem not_doubled_collapse (cs : List Char) : ¬ Doubled (collapse cs) := by
  induction cs with
  | nil => simp [collapse, Doubled]
  | cons c rest ih =>
    rw [collapse_cons]
    split
    · exact ih
    · next hsingle =>
      rw [doubled_cons, head?_collapse]
      exact not_or.mpr ⟨hsingle, ih⟩

theorem collapse_of_not_doubled (cs : List Char) (h : ¬ Doubled cs) : collapse cs = cs := by
  induction cs with
  | nil => rfl
  | cons c rest ih =>
    rw [doubled_cons, not_or] at h
    rw [collapse_cons, if_neg h.1, ih h.2]

theorem getLast?_collapse (cs : List Char) : (collapse cs).getLast? = cs.getLast? := by
  induction cs with
  | nil => rfl
  | cons c rest ih =>
    rw [collapse_cons, List.getLast?_cons, ← ih]
    split
    · next hdouble =>
      have hhead := head?_collapse rest
      rw [hdouble.2] at hhead
      obtain ⟨more, hmore⟩ := List.head?_eq_some_iff.mp hhead
      rw [hmore, List.getLast?_cons]
      rfl
    · rw [List.getLast?_cons]

theorem mem_of_mem_collapse (cs : List Char) (c : Char) (h : c ∈ collapse cs) : c ∈ cs := by
  induction cs with
  | nil => exact h
  | cons d rest ih =>
    rw [collapse_cons] at h
    split at h
    · exact List.mem_cons_of_mem d (ih h)
    · rcases List.mem_cons.mp h with rfl | hrest
      · exact List.mem_cons_self
      · exact List.mem_cons_of_mem d (ih hrest)

theorem filter_collapse (cs : List Char) :
    (collapse cs).filter isTokenChar = cs.filter isTokenChar := by
  induction cs with
  | nil => rfl
  | cons c rest ih =>
    rw [collapse_cons]
    split
    · next hdouble =>
      rw [hdouble.1, ih]
      rfl
    · rw [List.filter_cons, List.filter_cons, ih]

/-! ### Passes -/

theorem head?_mergePairs (cs : List Char) : (mergePairs cs).head? = cs.head? := by
  fun_cases mergePairs cs <;> rfl

theorem collapse_mergePairs (cs : List Char) : collapse (mergePairs cs) = collapse cs := by
  fun_induction mergePairs cs with
  | case1 rest ih =>
    have hpair : collapse ('_' :: '_' :: rest) = collapse ('_' :: rest) := by
      rw [collapse_cons '_' ('_' :: rest)]
      simp
    rw [hpair, collapse_cons, collapse_cons, head?_mergePairs, ih]
  | case2 c rest _ ih => rw [collapse_cons, collapse_cons, head?_mergePairs, ih]
  | case3 => rfl

theorem length_mergePairs_le (cs : List Char) : (mergePairs cs).length ≤ cs.length := by
  fun_induction mergePairs cs with
  | case1 rest ih =>
    simp only [List.length_cons]
    omega
  | case2 c rest _ ih =>
    simp only [List.length_cons]
    omega
  | case3 => exact Nat.le_refl _

theorem length_mergePairs_lt (cs : List Char) (h : Doubled cs) :
    (mergePairs cs).length < cs.length := by
  fun_induction mergePairs cs with
  | case1 rest ih =>
    have hle := length_mergePairs_le rest
    simp only [List.length_cons]
    omega
  | case2 c rest hsingle ih =>
    have hrest : Doubled rest := by
      rcases (doubled_cons c rest).mp h with ⟨hc, hhead⟩ | hrest
      · obtain ⟨more, hmore⟩ := List.head?_eq_some_iff.mp hhead
        exact absurd hmore (hsingle more hc)
      · exact hrest
    have hlt := ih hrest
    simp only [List.length_cons]
    omega
  | case3 => simp [Doubled] at h

/-- The passes come to an end, with one underscore for each run of them. -/
theorem collapses_collapse (cs : List Char) : Collapses cs (collapse cs) := by
  induction hlen : cs.length using Nat.strongRecOn generalizing cs with
  | ind n ih =>
    subst hlen
    by_cases h : Doubled cs
    · have hrest := ih (mergePairs cs).length (length_mergePairs_lt cs h) (mergePairs cs) rfl
      rw [collapse_mergePairs] at hrest
      exact .pass h hrest
    · rw [collapse_of_not_doubled cs h]
      exact .stop h

/-! ### Underscores at the ends -/

theorem head?_dropUnderscores (cs : List Char) : (cs.dropWhile (· == '_')).head? ≠ some '_' := by
  intro hhead
  have hnot := List.head?_dropWhile_not (· == '_') cs
  rw [hhead] at hnot
  simp at hnot

theorem dropUnderscores_of_head (cs : List Char) (h : cs.head? ≠ some '_') :
    cs.dropWhile (· == '_') = cs := by
  cases cs with
  | nil => rfl
  | cons c rest =>
    have hc : (c == '_') = false := by simpa using h
    rw [List.dropWhile_cons, hc]
    rfl

theorem filter_dropUnderscores (cs : List Char) :
    (cs.dropWhile (· == '_')).filter isTokenChar = cs.filter isTokenChar := by
  induction cs with
  | nil => rfl
  | cons c rest ih =>
    rw [List.dropWhile_cons]
    split
    · next hc =>
      obtain rfl : c = '_' := by simpa using hc
      rw [ih]
      rfl
    · rfl

theorem getLast?_trimUnderscores (cs : List Char) :
    (trimUnderscores cs).getLast? ≠ some '_' := by
  rw [trimUnderscores, List.getLast?_reverse]
  exact head?_dropUnderscores _

theorem head?_trimUnderscores (cs : List Char) : (trimUnderscores cs).head? ≠ some '_' := by
  have hhead := head?_dropUnderscores cs
  rw [trimUnderscores]
  generalize cs.dropWhile (· == '_') = ds at hhead
  -- what is taken off at the end does not touch the first character
  obtain ⟨taken, htaken⟩ := List.dropWhile_suffix (l := ds.reverse) (· == '_')
  have hsplit : (ds.reverse.dropWhile (· == '_')).reverse ++ taken.reverse = ds := by
    rw [← List.reverse_append, htaken, List.reverse_reverse]
  intro hfirst
  obtain ⟨more, hmore⟩ := List.head?_eq_some_iff.mp hfirst
  rw [hmore, List.cons_append] at hsplit
  rw [← hsplit] at hhead
  exact hhead rfl

theorem trimUnderscores_of_ends (cs : List Char) (hhead : cs.head? ≠ some '_')
    (hlast : cs.getLast? ≠ some '_') : trimUnderscores cs = cs := by
  have hreverse : cs.reverse.head? ≠ some '_' := by rwa [List.head?_reverse]
  rw [trimUnderscores, dropUnderscores_of_head cs hhead, dropUnderscores_of_head _ hreverse,
    List.reverse_reverse]

theorem mem_of_mem_trimUnderscores (cs : List Char) (c : Char) (h : c ∈ trimUnderscores cs) :
    c ∈ cs := by
  have hend := (List.dropWhile_suffix _).mem (List.mem_reverse.mp h)
  exact (List.dropWhile_suffix _).mem (List.mem_reverse.mp hend)

theorem filter_trimUnderscores (cs : List Char) :
    (trimUnderscores cs).filter isTokenChar = cs.filter isTokenChar := by
  rw [trimUnderscores, List.filter_reverse, filter_dropUnderscores, List.filter_reverse,
    List.reverse_reverse, filter_dropUnderscores]

/-! ### Token characters -/

theorem tokenChar_cases (c : Char) : isTokenChar (tokenChar c) = true ∨ tokenChar c = '_' := by
  unfold tokenChar
  split
  · next h => exact .inl h
  · exact .inr rfl

theorem toNat_of_isTokenChar (c : Char) (h : isTokenChar c = true) :
    97 ≤ c.toNat ∧ c.toNat ≤ 122 ∨ 48 ≤ c.toNat ∧ c.toNat ≤ 57 := by
  have hletter : c.isLower = (decide (97 ≤ c.toNat) && decide (c.toNat ≤ 122)) := rfl
  rw [isTokenChar, Bool.or_eq_true, hletter, Char.isDigit_iff_toNat, Bool.and_eq_true,
    decide_eq_true_eq, decide_eq_true_eq] at h
  exact h

theorem tokenChar_of_tokenText (c : Char) (h : isTokenChar c = true ∨ c = '_') :
    tokenChar c = c := by
  rcases h with h | rfl
  · have hrange := toNat_of_isTokenChar c h
    have hupper : ¬ (65 ≤ c.toNat ∧ c.toNat ≤ 90) := by omega
    have hlower : lower c = c := by
      unfold lower
      rw [if_neg (by omega), if_neg (by omega)]
      exact dif_neg hupper
    rw [tokenChar, hlower, if_pos h]
  · decide

theorem filter_map_tokenChar (text : List Char) :
    (text.map tokenChar).filter isTokenChar = (text.map lower).filter isTokenChar := by
  induction text with
  | nil => rfl
  | cons c rest ih =>
    rw [List.map_cons, List.map_cons, List.filter_cons, List.filter_cons, ih]
    by_cases h : isTokenChar (lower c) = true
    · simp [tokenChar, h]
    · have hunderscore : isTokenChar '_' = false := by decide
      simp [tokenChar, h, hunderscore]

/-! ### Tokens -/

/-- One word or more, each of lower-case letters and digits. -/
structure AreWords (words : List (List Char)) : Prop where
  some_word : words ≠ []
  nonempty : ∀ w ∈ words, w ≠ []
  chars : ∀ w ∈ words, ∀ c ∈ w, isTokenChar c = true

/-- Words of lower-case letters and digits, with one underscore between them. -/
def IsToken (s : String) : Prop :=
  ∃ words, AreWords words ∧ s.toList = List.intercalate ['_'] words

def IsTokenText (cs : List Char) : Prop := ∀ c ∈ cs, isTokenChar c = true ∨ c = '_'

def tokenChars (text : List Char) : List Char := (text.map lower).filter isTokenChar

/-- Token characters and underscores, with no underscore at an end and no two together. -/
structure Tidy (cs : List Char) : Prop where
  text : IsTokenText cs
  head : cs.head? ≠ some '_'
  last : cs.getLast? ≠ some '_'
  single : ¬ Doubled cs

/-- What is left of a text for its token. -/
def tidied (text : List Char) : List Char := collapse (trimUnderscores (text.map tokenChar))

theorem tidy_tidied (text : List Char) : Tidy (tidied text) where
  text c hc := by
    have hmem := mem_of_mem_trimUnderscores _ c (mem_of_mem_collapse _ c hc)
    obtain ⟨d, -, rfl⟩ := List.mem_map.mp hmem
    exact tokenChar_cases d
  head := by
    rw [tidied, head?_collapse]
    exact head?_trimUnderscores _
  last := by
    rw [tidied, getLast?_collapse]
    exact getLast?_trimUnderscores _
  single := not_doubled_collapse _

theorem filter_tidied (text : List Char) :
    (tidied text).filter isTokenChar = tokenChars text := by
  rw [tidied, filter_collapse, filter_trimUnderscores, filter_map_tokenChar, tokenChars]

theorem Tidy.tidied_eq {cs : List Char} (h : Tidy cs) : tidied cs = cs := by
  have hchars : cs.map tokenChar = cs.map id :=
    List.map_congr_left fun c hc => tokenChar_of_tokenText c (h.text c hc)
  rw [List.map_id] at hchars
  rw [tidied, hchars, trimUnderscores_of_ends cs h.head h.last, collapse_of_not_doubled cs h.single]

theorem Tidy.filter_ne_nil {cs : List Char} (h : Tidy cs) (hne : cs ≠ []) :
    cs.filter isTokenChar ≠ [] := by
  obtain ⟨c, rest, rfl⟩ := List.exists_cons_of_ne_nil hne
  have hc : isTokenChar c = true := by
    rcases h.text c List.mem_cons_self with hc | rfl
    · exact hc
    · exact absurd rfl h.head
  rw [List.filter_cons_of_pos hc]
  exact List.cons_ne_nil c _

/-- The words of a tidy text, behind the part of a word that has been read. -/
theorem exists_words (cs word : List Char) (htext : IsTokenText cs)
    (hlast : cs.getLast? ≠ some '_') (hsingle : ¬ Doubled cs)
    (hword : ∀ c ∈ word, isTokenChar c = true)
    (hstart : word = [] → cs ≠ [] ∧ cs.head? ≠ some '_') :
    ∃ words, AreWords words ∧ word ++ cs = List.intercalate ['_'] words := by
  induction cs generalizing word with
  | nil =>
    have hne : word ≠ [] := fun hempty => (hstart hempty).1 rfl
    exact ⟨[word], ⟨by simp, by simpa using hne, by simpa using hword⟩, by simp⟩
  | cons c rest ih =>
    obtain ⟨hc, hrest⟩ := List.forall_mem_cons.mp htext
    rw [doubled_cons, not_or] at hsingle
    have hend : rest.getLast? ≠ some '_' := by
      intro hunderscore
      rw [List.getLast?_cons, hunderscore] at hlast
      exact hlast rfl
    rcases hc with hc | rfl
    · -- the word goes on
      obtain ⟨words, hwords, hjoined⟩ := ih (word ++ [c]) hrest hend hsingle.2
        (List.forall_mem_append.mpr ⟨hword, by simpa using hc⟩) (by simp)
      refine ⟨words, hwords, ?_⟩
      rw [← hjoined, List.append_assoc]
      rfl
    · -- the word ends, and another one follows
      have hne : word ≠ [] := fun hempty => (hstart hempty).2 rfl
      have hmore : rest ≠ [] := by
        rintro rfl
        exact hlast rfl
      obtain ⟨words, hwords, hjoined⟩ := ih [] hrest hend hsingle.2 (by simp)
        fun _ => ⟨hmore, fun hhead => hsingle.1 ⟨rfl, hhead⟩⟩
      refine ⟨word :: words, ⟨by simp, List.forall_mem_cons.mpr ⟨hne, hwords.nonempty⟩,
        List.forall_mem_cons.mpr ⟨hword, hwords.chars⟩⟩, ?_⟩
      rw [List.intercalate_cons_of_ne_nil hwords.some_word, ← hjoined]
      simp

theorem Tidy.isToken {cs : List Char} (h : Tidy cs) (hne : cs ≠ []) :
    IsToken (String.ofList cs) := by
  obtain ⟨words, hwords, hjoined⟩ :=
    exists_words cs [] h.text h.last h.single (by simp) fun _ => ⟨hne, h.head⟩
  rw [List.nil_append] at hjoined
  exact ⟨words, hwords, by rw [String.toList_ofList, hjoined]⟩

theorem tokenOf_eq (text : List Char) (fallback : String) :
    tokenOf text fallback =
      if (tidied text).isEmpty then fallback else String.ofList (tidied text) := rfl

theorem tokenOf_of_ne_nil (text : List Char) (fallback : String) (h : tidied text ≠ []) :
    tokenOf text fallback = String.ofList (tidied text) := by
  rw [tokenOf_eq, if_neg (by simpa using h)]

/-- A text has a token exactly if it has a letter or a digit, and the token keeps all of them. -/
theorem tokenOf_cases (text : List Char) (fallback : String) :
    (tokenChars text = [] ∧ tokenOf text fallback = fallback) ∨
      (tokenChars text ≠ [] ∧ IsToken (tokenOf text fallback) ∧
        (tokenOf text fallback).toList.filter isTokenChar = tokenChars text) := by
  have htidy := tidy_tidied text
  have hkept := filter_tidied text
  by_cases hempty : tidied text = []
  · rw [hempty] at hkept
    exact .inl ⟨hkept.symm, by rw [tokenOf_eq, hempty]; rfl⟩
  · rw [tokenOf_of_ne_nil text fallback hempty, String.toList_ofList, ← hkept]
    exact .inr ⟨htidy.filter_ne_nil hempty, htidy.isToken hempty, rfl⟩

/-- A token is its own token. -/
theorem tokenOf_tokenOf (text : List Char) (fallback other : String)
    (h : tokenOf text fallback ≠ fallback) :
    IsTokenText (tokenOf text fallback).toList ∧
      tokenOf (tokenOf text fallback).toList other = tokenOf text fallback := by
  have htidy := tidy_tidied text
  have hne : tidied text ≠ [] := by
    intro hempty
    rw [tokenOf_eq, hempty] at h
    exact h rfl
  rw [tokenOf_of_ne_nil text fallback hne, String.toList_ofList]
  refine ⟨htidy.text, ?_⟩
  have hself := htidy.tidied_eq
  rw [tokenOf_of_ne_nil _ other (by rw [hself]; exact hne), hself]

/-! ### Snake case of tokens -/

def IsTokenByte (b : UInt8) : Prop :=
  97 ≤ b.toNat ∧ b.toNat ≤ 122 ∨ 48 ≤ b.toNat ∧ b.toNat ≤ 57 ∨ b.toNat = 95

theorem foldOAuth_of_tokenBytes (bs : List UInt8) (h : ∀ b ∈ bs, IsTokenByte b) :
    foldOAuth bs = bs := by
  fun_induction foldOAuth bs with
  | case1 rest ih =>
    have hcapital := h 79 List.mem_cons_self
    simp [IsTokenByte] at hcapital
  | case2 b rest _ ih => rw [ih (List.forall_mem_cons.mp h).2]
  | case3 => rfl

theorem isSpace_of_tokenByte (b : UInt8) (h : IsTokenByte b) :
    Category.isSpace (Char.ofNat b.toNat) = false := by
  have hall : ∀ n < 128, 48 ≤ n → Category.isSpace (Char.ofNat n) = false := by decide
  unfold IsTokenByte at h
  exact hall b.toNat (by omega) (by omega)

theorem pieces_of_tokenBytes (bs : List UInt8) (h : ∀ b ∈ bs, IsTokenByte b) :
    Utf8.pieces bs = bs.map fun b => (Char.ofNat b.toNat, [b]) := by
  induction bs with
  | nil => rfl
  | cons b rest ih =>
    obtain ⟨hb, hrest⟩ := List.forall_mem_cons.mp h
    unfold IsTokenByte at hb
    rw [Utf8.pieces_ascii b rest (by omega), ih hrest, List.map_cons]

theorem fieldsFrom_of_tokenBytes (field bs : List UInt8) (h : ∀ b ∈ bs, IsTokenByte b) :
    fieldsFrom field (bs.map fun b => (Char.ofNat b.toNat, [b])) =
      if (field ++ bs).isEmpty then [] else [field ++ bs] := by
  induction bs generalizing field with
  | nil => simp [fieldsFrom]
  | cons b rest ih =>
    obtain ⟨hb, hrest⟩ := List.forall_mem_cons.mp h
    rw [List.map_cons, fieldsFrom, isSpace_of_tokenByte b hb, if_neg Bool.false_ne_true,
      ih (field ++ [b]) hrest, List.append_assoc]
    rfl

theorem joinFields_of_tokenBytes (bs : List UInt8) (h : ∀ b ∈ bs, IsTokenByte b) :
    joinFields bs = bs := by
  rw [joinFields, pieces_of_tokenBytes bs h, fieldsFrom_of_tokenBytes [] bs h, List.nil_append]
  cases bs with
  | nil => rfl
  | cons b rest => simp

theorem lowerByte_of_tokenByte (b : UInt8) (h : IsTokenByte b) : lowerByte b = b := by
  unfold IsTokenByte at h
  have hupper : ¬ ((65 ≤ b.toNat ∧ b.toNat ≤ 90) ∨
      ((0xC0 ≤ b.toNat ∧ b.toNat ≤ 0xDE) ∧ b.toNat ≠ 0xD7)) := by omega
  simp only [lowerByte, Bool.or_eq_true, Bool.and_eq_true, decide_eq_true_eq, bne_iff_ne, ne_eq]
  exact if_neg hupper

theorem snakeTail_of_tokenBytes (afterLow afterUnderscore : Bool) (bs : List UInt8)
    (h : ∀ b ∈ bs, IsTokenByte b) : snakeTail afterLow afterUnderscore bs = bs := by
  induction bs generalizing afterLow afterUnderscore with
  | nil => rfl
  | cons b rest ih =>
    obtain ⟨hb, hrest⟩ := List.forall_mem_cons.mp h
    have hword : (!isLowByte b && !(b == underscore)) = false := by
      rcases hb with ⟨hfirst, hlast⟩ | ⟨hfirst, hlast⟩ | hunderscore
      · simp [isLowByte, isLowLetter, hfirst, hlast]
      · simp [isLowByte, hfirst, hlast]
      · have heq : b = underscore := UInt8.toNat_inj.mp hunderscore
        simp [heq]
    simp only [snakeTail, hword, Bool.false_and, Bool.false_eq_true, if_false, List.nil_append,
      lowerByte_of_tokenByte b hb, ih _ _ hrest]

theorem snakeCase_of_tokenBytes (bs : List UInt8) (h : ∀ b ∈ bs, IsTokenByte b) :
    snakeCase bs = bs := by
  have hkept : (bs.map fun b => if b == byteOf '-' || b == byteOf '/' then underscore else b) =
      bs.map id := by
    apply List.map_congr_left
    intro b hb
    have hrange := h b hb
    unfold IsTokenByte at hrange
    have hother : ∀ c : UInt8, c.toNat < 48 → (b == c) = false := by
      intro c hc
      rw [beq_eq_false_iff_ne]
      rintro rfl
      omega
    rw [hother _ (by decide), hother _ (by decide)]
    rfl
  rw [List.map_id] at hkept
  rw [snakeCase, foldOAuth_of_tokenBytes bs h, joinFields_of_tokenBytes bs h, hkept]
  cases bs with
  | nil => rfl
  | cons b rest =>
    obtain ⟨hb, hrest⟩ := List.forall_mem_cons.mp h
    simp only [lowerByte_of_tokenByte b hb, snakeTail_of_tokenBytes _ _ rest hrest]

/-- Snake case leaves token characters and underscores as they are. -/
theorem snakeText_encode (s : String) (h : IsTokenText s.toList) :
    snakeText (Utf8.encode s) = s.toList := by
  have hrange : ∀ c ∈ s.toList,
      97 ≤ c.toNat ∧ c.toNat ≤ 122 ∨ 48 ≤ c.toNat ∧ c.toNat ≤ 57 ∨ c.toNat = 95 := by
    intro c hc
    rcases h c hc with hchar | rfl
    · have hcases := toNat_of_isTokenChar c hchar
      omega
    · decide
  have hbyte : ∀ c ∈ s.toList, (byteOf c).toNat = c.toNat := by
    intro c hc
    have hc' := hrange c hc
    exact Utf8.toNat_byte c.toNat (by omega)
  have hencode : Utf8.encode s = s.toList.map byteOf := by
    rw [Utf8.encode_eq_flatMap, List.map_eq_flatMap]
    apply List.flatMap_congr
    intro c hc
    have hc' := hrange c hc
    have hval : c.val.toNat = c.toNat := rfl
    rw [String.utf8EncodeChar, hval, if_pos (by omega)]
    rfl
  have hbytes : ∀ b ∈ s.toList.map byteOf, IsTokenByte b := by
    intro b hb
    obtain ⟨c, hc, rfl⟩ := List.mem_map.mp hb
    rw [IsTokenByte, hbyte c hc]
    exact hrange c hc
  have hback : s.toList.map (fun c => Char.ofNat (byteOf c).toNat) = s.toList.map id := by
    apply List.map_congr_left
    intro c hc
    rw [hbyte c hc]
    exact Char.ofNat_toNat c
  rw [snakeText, hencode, snakeCase_of_tokenBytes _ hbytes, List.map_map]
  rw [List.map_id] at hback
  exact hback

/-! ### File names -/

/-- The name of a file of its own: a token with the ending `.py`, in no directory and not hidden. -/
structure IsFileName (path : String) : Prop where
  form : ∃ token, IsToken token ∧ path = token ++ ".py"
  component : Path.ofText path = ⟨false, [path], false⟩
  head : path.toList.head? ≠ some '.'
  no_slash : '/' ∉ path.toList
  no_backslash : '\\' ∉ path.toList

theorem isTokenText_intercalate (words : List (List Char))
    (h : ∀ w ∈ words, ∀ c ∈ w, isTokenChar c = true) :
    IsTokenText (List.intercalate ['_'] words) := by
  induction words with
  | nil => simp [IsTokenText]
  | cons w rest ih =>
    obtain ⟨hw, hrest⟩ := List.forall_mem_cons.mp h
    have hword : ∀ c ∈ w, isTokenChar c = true ∨ c = '_' := fun c hc => .inl (hw c hc)
    by_cases hlast : rest = []
    · subst hlast
      simpa [IsTokenText] using hword
    · rw [List.intercalate_cons_of_ne_nil hlast]
      refine List.forall_mem_append.mpr ⟨List.forall_mem_append.mpr ⟨hword, ?_⟩, ih hrest⟩
      simp

/-- A token starts with a letter or a digit. -/
theorem IsToken.exists_head {token : String} (h : IsToken token) :
    ∃ c rest, token.toList = c :: rest ∧ isTokenChar c = true := by
  obtain ⟨words, hwords, htext⟩ := h
  obtain ⟨w, more, rfl⟩ := List.exists_cons_of_ne_nil hwords.some_word
  obtain ⟨c, cs, rfl⟩ := List.exists_cons_of_ne_nil (hwords.nonempty w List.mem_cons_self)
  have hc := hwords.chars _ List.mem_cons_self c List.mem_cons_self
  by_cases hlast : more = []
  · subst hlast
    exact ⟨c, cs, by simpa using htext, hc⟩
  · rw [List.intercalate_cons_of_ne_nil hlast, List.append_assoc, List.cons_append] at htext
    exact ⟨c, _, htext, hc⟩

theorem ofText_of_no_slash (s : String) (hne : s.toList ≠ []) (h : '/' ∉ s.toList) :
    Path.ofText s = ⟨false, [s], false⟩ := by
  have hhead : s.toList.head? ≠ some '/' := fun hslash => h (List.mem_of_head? hslash)
  have hlast : s.toList.getLast? ≠ some '/' := fun hslash => h (List.mem_of_getLast? hslash)
  unfold Path.ofText
  rw [Path.pieces_of_no_slash s.toList h]
  simp [hhead, hlast, hne]

theorem IsToken.isFileName {token : String} (h : IsToken token) : IsFileName (token ++ ".py") := by
  obtain ⟨c, rest, hhead, hc⟩ := h.exists_head
  have htext : IsTokenText token.toList := by
    obtain ⟨words, hwords, hjoined⟩ := h
    rw [hjoined]
    exact isTokenText_intercalate words hwords.chars
  have habsent : ∀ d, isTokenChar d = false → d ≠ '_' → d ∉ ".py".toList →
      d ∉ (token ++ ".py").toList := by
    intro d hchar hunderscore hending hmem
    rw [String.toList_append] at hmem
    rcases List.mem_append.mp hmem with hmem | hmem
    · rcases htext d hmem with hd | hd
      · rw [hchar] at hd
        cases hd
      · exact hunderscore hd
    · exact hending hmem
  have hslash := habsent '/' (by decide) (by decide) (by decide)
  have hne : (token ++ ".py").toList ≠ [] := by simp [hhead]
  refine ⟨⟨token, h, rfl⟩, ofText_of_no_slash _ hne hslash, ?_, hslash,
    habsent _ (by decide) (by decide) (by decide)⟩
  rw [String.toList_append, hhead, List.cons_append, List.head?_cons, ne_eq, Option.some.injEq]
  rintro rfl
  exact absurd hc (by decide)

theorem isFileName_defaultPathBy (snake : List UInt8 → List Char) (name : List UInt8) :
    IsFileName (defaultPathBy snake name) := by
  have htoken : IsToken (fileTokenBy snake name "module") := by
    rcases tokenOf_cases (snake name) "module" with ⟨-, hfallback⟩ | ⟨-, htoken, -⟩
    · have hchars : ∀ c ∈ "module".toList, isTokenChar c = true :=
        List.all_eq_true.mp (by decide)
      rw [fileTokenBy, hfallback]
      exact ⟨["module".toList], ⟨by simp, by simp, by simpa using hchars⟩,
        List.intercalate_singleton.symm⟩
    · exact htoken
  exact htoken.isFileName

/-- Whatever snake case is, the token of a name is the fallback, if no letter or digit is left, or it
is a token with all of them; the underscores between words are found in passes that end; and every
default path is the name of a file. A token is its own token if snake case leaves token characters and
underscores as they are, which the one in use does. -/
theorem file_tokens_safe (snake : List UInt8 → List Char) :
    (∀ name fallback,
      (tokenChars (snake name) = [] ∧ fileTokenBy snake name fallback = fallback) ∨
        (tokenChars (snake name) ≠ [] ∧ IsToken (fileTokenBy snake name fallback) ∧
          (fileTokenBy snake name fallback).toList.filter isTokenChar = tokenChars (snake name))) ∧
      (∀ name, Collapses (trimUnderscores ((snake name).map tokenChar)) (tidied (snake name))) ∧
      (∀ name, IsFileName (defaultPathBy snake name)) ∧
      (∀ g : Graph, IsFileName (Generation.defaultPath g)) ∧
      ((∀ s : String, IsTokenText s.toList → snake (Utf8.encode s) = s.toList) →
        ∀ name fallback other, fileTokenBy snake name fallback ≠ fallback →
          fileTokenBy snake (Utf8.encode (fileTokenBy snake name fallback)) other =
            fileTokenBy snake name fallback) ∧
      ∀ s : String, IsTokenText s.toList → snakeText (Utf8.encode s) = s.toList := by
  refine ⟨fun name fallback => tokenOf_cases (snake name) fallback,
    fun name => collapses_collapse _, isFileName_defaultPathBy snake,
    fun g => isFileName_defaultPathBy snakeText _, fun hsnake name fallback other h => ?_,
    snakeText_encode⟩
  obtain ⟨htext, hself⟩ := tokenOf_tokenOf (snake name) fallback other h
  unfold fileTokenBy
  rw [hsnake _ htext]
  exact hself

theorem untidy_name_settles :
    fileToken (Utf8.encode " __My Net//v2.É__Ω_ ") "module" = "my_net_v2" ∧
      fileToken (Utf8.encode "my_net_v2") "other" = "my_net_v2" := by
  have htoken : fileTokenBy snakeText (Utf8.encode " __My Net//v2.É__Ω_ ") "module" = "my_net_v2" := by
    decide +kernel
  obtain ⟨-, -, -, -, hsettles, hsnake⟩ := file_tokens_safe snakeText
  have hself := hsettles hsnake (Utf8.encode " __My Net//v2.É__Ω_ ") "module" "other"
    (by rw [htoken]; decide)
  rw [htoken] at hself
  exact ⟨htoken, hself⟩

end Netscribe.Naming
