import Netscribe.Literal
import Netscribe.Proofs.Utf8

/-!
# String literals read back

`Literal.read?` reads a short string literal of Python: an opening quote, characters and escapes on
one line, and the first unescaped quote of the same kind. The literal of any text is read to its last
character and no further, and what is read is the text.
-/

namespace Netscribe.Literal

def isQuote (c : Char) : Prop := c = singleQuote ∨ c = doubleQuote

instance (c : Char) : Decidable (isQuote c) :=
  inferInstanceAs (Decidable (c = singleQuote ∨ c = doubleQuote))

def escaped? (c : Char) : Option Char :=
  if c = '\\' ∨ isQuote c then some c
  else if c = 'n' then some '\n'
  else if c = 'r' then some '\r'
  else if c = 't' then some '\t'
  else none

/-- The text up to the closing quote `q`, and what follows it. -/
def readBody? (q : Char) : List Char → Option (List Char × List Char)
  | [] => none
  | ['\\'] => none
  | '\\' :: c :: rest =>
    (escaped? c).bind fun x => (readBody? q rest).map fun r => (x :: r.1, r.2)
  | c :: rest =>
    if c = q then some ([], rest)
    else if c = '\n' ∨ c = '\r' then none
    else (readBody? q rest).map fun r => (c :: r.1, r.2)

def read? : List Char → Option (List Char × List Char)
  | [] => none
  | q :: rest => if isQuote q then readBody? q rest else none

theorem isQuote_delimiter (cs : List Char) : isQuote (delimiter cs) := by
  unfold delimiter
  split
  · exact .inr rfl
  · exact .inl rfl

theorem ne_backslash_of_isQuote (q : Char) (h : isQuote q) : q ≠ '\\' := by
  rcases h with rfl | rfl
  · decide
  · decide

/-! ### The literal of a text -/

theorem readBody?_plain (q c : Char) (rest : List Char) (hb : c ≠ '\\') (hn : c ≠ '\n')
    (hr : c ≠ '\r') (hq : c ≠ q) :
    readBody? q (c :: rest) = (readBody? q rest).map fun r => (c :: r.1, r.2) := by
  rw [readBody?.eq_4 q c rest (fun h => absurd h hb) (fun _ _ h => absurd h hb), if_neg hq,
    if_neg (not_or.mpr ⟨hn, hr⟩)]

theorem readBody?_quote (q : Char) (rest : List Char) (hq : isQuote q) :
    readBody? q (q :: rest) = some ([], rest) := by
  have hb := ne_backslash_of_isQuote q hq
  rw [readBody?.eq_4 q q rest (fun h => absurd h hb) (fun _ _ h => absurd h hb), if_pos rfl]

/-- Each character is read back from the way it is written. -/
theorem readBody?_escape (q c : Char) (rest : List Char) (hq : isQuote q) :
    readBody? q (escape q c ++ rest) = (readBody? q rest).map fun r => (c :: r.1, r.2) := by
  -- an escape of two characters, of which the second stands for `c`
  have hpair : ∀ d, escape q c = ['\\', d] → escaped? d = some c →
      readBody? q (escape q c ++ rest) = (readBody? q rest).map fun r => (c :: r.1, r.2) := by
    intro d hd he
    rw [hd, List.cons_append, List.singleton_append, readBody?, he]
    rfl
  by_cases hb : c = '\\'
  · subst hb
    exact hpair '\\' rfl rfl
  by_cases hn : c = '\n'
  · subst hn
    exact hpair 'n' rfl rfl
  by_cases hr : c = '\r'
  · subst hr
    exact hpair 'r' rfl rfl
  by_cases ht : c = '\t'
  · subst ht
    exact hpair 't' rfl rfl
  by_cases hd : c = q
  · subst hd
    refine hpair c ?_ ?_
    · simp [escape, hb, hn, hr, ht]
    · rw [escaped?, if_pos (.inr hq)]
  · have hself : escape q c = [c] := by simp [escape, hb, hn, hr, ht, hd]
    rw [hself, List.singleton_append, readBody?_plain q c rest hb hn hr hd]

theorem readBody?_body (q : Char) (cs rest : List Char) (hq : isQuote q) :
    readBody? q (cs.flatMap (escape q) ++ q :: rest) = some (cs, rest) := by
  induction cs with
  | nil => exact readBody?_quote q rest hq
  | cons c cs ih =>
    rw [List.flatMap_cons, List.append_assoc, readBody?_escape q c _ hq, ih]
    rfl

theorem read?_quote (cs rest : List Char) : read? (quote cs ++ rest) = some (cs, rest) := by
  have hq := isQuote_delimiter cs
  rw [quote, List.cons_append, List.append_assoc, read?, if_pos hq]
  exact readBody?_body (delimiter cs) cs rest hq

/-! ### Where a literal ends -/

/-- What follows a literal has no part in reading it. -/
theorem readBody?_append (q : Char) (s more : List Char) (text rest : List Char)
    (h : readBody? q s = some (text, rest)) :
    readBody? q (s ++ more) = some (text, rest ++ more) := by
  fun_induction readBody? q s generalizing text rest with
  | case1 => cases h
  | case2 => cases h
  | case3 c tail ih =>
    obtain ⟨x, hx, hmap⟩ := Option.bind_eq_some_iff.mp h
    obtain ⟨r, hr, he⟩ := Option.map_eq_some_iff.mp hmap
    obtain ⟨rfl, rfl⟩ := Prod.mk.inj he
    rw [List.cons_append, List.cons_append, readBody?, hx, ih r.1 r.2 hr]
    rfl
  | case4 tail hlone hpair =>
    obtain ⟨rfl, rfl⟩ := Prod.mk.inj (Option.some.inj h)
    have hb : q ≠ '\\' := by
      intro hq
      cases tail with
      | nil => exact hlone hq rfl
      | cons d tail => exact hpair d tail hq rfl
    rw [List.cons_append, readBody?.eq_4 q q _ (fun h => absurd h hb) (fun _ _ h => absurd h hb),
      if_pos rfl]
  | case5 => cases h
  | case6 c tail hlone hpair hq hbreak ih =>
    obtain ⟨r, hr, he⟩ := Option.map_eq_some_iff.mp h
    obtain ⟨rfl, rfl⟩ := Prod.mk.inj he
    have hb : c ≠ '\\' := by
      intro hc
      cases tail with
      | nil => exact hlone hc rfl
      | cons d tail => exact hpair d tail hc rfl
    obtain ⟨hn, hcr⟩ := not_or.mp hbreak
    rw [List.cons_append, readBody?_plain q c _ hb hn hcr hq, ih r.1 r.2 hr]
    rfl

theorem read?_append (s more text rest : List Char) (h : read? s = some (text, rest)) :
    read? (s ++ more) = some (text, rest ++ more) := by
  cases s with
  | nil => cases h
  | cons q tail =>
    rw [read?] at h
    split at h
    · next hq =>
      rw [List.cons_append, read?, if_pos hq]
      exact readBody?_append q tail more text rest h
    · cases h

/-- No shorter part of the literal is a literal of its own. -/
theorem eq_quote_of_read? (cs p text : List Char) (hp : p <+: quote cs)
    (h : read? p = some (text, [])) : p = quote cs := by
  obtain ⟨more, hmore⟩ := hp
  have hlong := read?_append p more text [] h
  have hall := read?_quote cs []
  rw [List.append_nil, ← hmore, hlong] at hall
  obtain ⟨-, hnil⟩ := Prod.mk.inj (Option.some.inj hall)
  rw [List.nil_append] at hnil
  rw [← hmore, hnil, List.append_nil]

theorem toList_string (s : String) : (string s).toList = quote s.toList := String.toList_ofList

theorem string_injective (s s' : String) (h : string s = string s') : s = s' := by
  have hs := read?_quote s.toList []
  have hs' := read?_quote s'.toList []
  rw [← toList_string, h, toList_string, hs'] at hs
  obtain ⟨hlist, -⟩ := Prod.mk.inj (Option.some.inj hs)
  exact (String.toList_inj.mp hlist).symm

/-- The literal of any byte string is read exactly to its end, whatever follows, as the characters of
the byte string. No part before the end is a literal, and texts with the same literal are the same. -/
theorem string_literal_reads_back (bs : List UInt8) :
    Utf8.Reads bs (Utf8.text bs).toList ∧
      (∀ rest, read? ((string (Utf8.text bs)).toList ++ rest) =
        some ((Utf8.text bs).toList, rest)) ∧
      (∀ p text, p <+: (string (Utf8.text bs)).toList → read? p = some (text, []) →
        p = (string (Utf8.text bs)).toList) ∧
      ∀ s s' : String, string (Utf8.text (Utf8.encode s)) = string (Utf8.text (Utf8.encode s')) →
        Utf8.encode s = Utf8.encode s' := by
  refine ⟨?_, fun rest => ?_, fun p text hp h => ?_, fun s s' h => ?_⟩
  · rw [Utf8.reads_iff]
    exact String.toList_ofList
  · rw [toList_string]
    exact read?_quote _ rest
  · rw [toList_string] at hp ⊢
    exact eq_quote_of_read? _ p text hp h
  · rw [Utf8.text_encode, Utf8.text_encode] at h
    rw [string_injective s s' h]

end Netscribe.Literal
