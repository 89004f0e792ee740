import Netscribe.Naming.ClassName
import Netscribe.Naming.Symbol

/-!
# Generated names do not collide

A generated name is the name of a submodule, of a sole output, or of one of several outputs. Writing
such a name down is injective: decimal texts are injective and hold no underscore, so the underscore
before an ordinal is found again, and the two stems differ in their first letter after the point.
A generated name is an attribute of `self` exactly if its index is not negative.
-/

namespace Netscribe

/-! ### Decimal texts -/

theorem decimalDigits_injective (a b : Nat) (h : decimalDigits a = decimalDigits b) : a = b := by
  have hread := congrArg (fun ds => Nat.ofDigitChars 10 ds 0) h
  simpa only [decimalDigits, Nat.ofDigitChars_ten_toDigits] using hread

theorem isDigit_of_mem_decimalDigits (n : Nat) (c : Char) (h : c ∈ decimalDigits n) : c.isDigit :=
  Nat.isDigit_of_mem_toDigits (by decide) (by decide) h

theorem decimalText_toList (i : Int) :
    (decimalText i).toList =
      if i < 0 then '-' :: decimalDigits i.natAbs else decimalDigits i.natAbs := by
  simp only [decimalText, String.toList_ofList]

theorem underscore_not_mem_decimalText (i : Int) : '_' ∉ (decimalText i).toList := by
  intro h
  have hdigit : '_' ∉ decimalDigits i.natAbs := by
    intro hm
    have := isDigit_of_mem_decimalDigits i.natAbs '_' hm
    revert this
    decide
  rw [decimalText_toList] at h
  split at h
  · simp only [List.mem_cons] at h
    rcases h with h | h
    · exact absurd h (by decide)
    · exact hdigit h
  · exact hdigit h

theorem minus_not_mem_decimalDigits (n : Nat) : '-' ∉ decimalDigits n := by
  intro hm
  have := isDigit_of_mem_decimalDigits n '-' hm
  revert this
  decide

theorem decimalText_injective (i j : Int) (h : decimalText i = decimalText j) : i = j := by
  have hl := congrArg String.toList h
  rw [decimalText_toList, decimalText_toList] at hl
  split at hl <;> split at hl
  · have hd := decimalDigits_injective _ _ (List.cons.inj hl).2
    omega
  · have hm : '-' ∈ decimalDigits j.natAbs := by
      rw [← hl]
      exact List.mem_cons_self ..
    exact absurd hm (minus_not_mem_decimalDigits _)
  · have hm : '-' ∈ decimalDigits i.natAbs := by
      rw [hl]
      exact List.mem_cons_self ..
    exact absurd hm (minus_not_mem_decimalDigits _)
  · have hd := decimalDigits_injective _ _ hl
    omega

/-! ### Names by kind -/

/-- The kinds of names that are generated for a node. -/
inductive GeneratedName where
  | submodule (index : Int)
  | output (index : Int)
  | outputAt (index : Int) (ordinal : Nat)

namespace GeneratedName

def text : GeneratedName → String
  | submodule index => Naming.submodule index
  | output index => Naming.outputName index
  | outputAt index ordinal => Naming.outputNameAt index ordinal

/-- Two lists that are equal up to the first underscore and behind it are equal there. -/
theorem append_underscore_inj (a b c d : List Char) (ha : '_' ∉ a) (hc : '_' ∉ c)
    (h : a ++ '_' :: b = c ++ '_' :: d) : a = c ∧ b = d := by
  induction a generalizing c with
  | nil =>
    cases c with
    | nil => exact ⟨rfl, (List.cons.inj h).2⟩
    | cons y ys =>
      have hy : '_' = y := (List.cons.inj h).1
      exact absurd (hy ▸ List.mem_cons_self ..) hc
  | cons x xs ih =>
    cases c with
    | nil =>
      have hx : x = '_' := (List.cons.inj h).1
      exact absurd (hx ▸ List.mem_cons_self ..) ha
    | cons y ys =>
      obtain ⟨hxy, hrest⟩ := List.cons.inj h
      have hxs : '_' ∉ xs := fun hm => ha (List.mem_cons_of_mem _ hm)
      have hys : '_' ∉ ys := fun hm => hc (List.mem_cons_of_mem _ hm)
      obtain ⟨htl, hbd⟩ := ih ys hxs hys hrest
      exact ⟨by rw [hxy, htl], hbd⟩

theorem outputName_injective (i j : Int) (h : Naming.outputName i = Naming.outputName j) :
    i = j := by
  simp only [Naming.outputName, Naming.moduleName, String.append_right_inj] at h
  exact decimalText_injective i j h

theorem outputNameAt_injective (i j : Int) (k l : Nat)
    (h : Naming.outputNameAt i k = Naming.outputNameAt j l) : i = j ∧ k = l := by
  simp only [Naming.outputNameAt, Naming.outputName, Naming.moduleName, String.append_assoc,
    String.append_right_inj] at h
  have hl := congrArg String.toList h
  simp only [String.toList_append] at hl
  obtain ⟨hi, hk⟩ := append_underscore_inj _ _ _ _ (underscore_not_mem_decimalText i)
    (underscore_not_mem_decimalText j) hl
  have hkl := decimalText_injective k l (String.toList_inj.mp hk)
  exact ⟨decimalText_injective i j (String.toList_inj.mp hi), by omega⟩

/-- A sole output and one of several outputs never share a name, whatever their indices. -/
theorem outputName_ne_outputNameAt (i j : Int) (k : Nat) :
    Naming.outputName i ≠ Naming.outputNameAt j k := by
  intro h
  simp only [Naming.outputNameAt, Naming.outputName, Naming.moduleName, String.append_assoc,
    String.append_right_inj] at h
  apply underscore_not_mem_decimalText i
  rw [h]
  simp [String.toList_append]

theorem submodule_injective (i j : Int) (h : Naming.submodule i = Naming.submodule j) : i = j := by
  simp only [Naming.submodule, Naming.moduleName, String.append_right_inj] at h
  exact decimalText_injective i j h

/-- The letter after the point tells submodules from outputs. -/
theorem submodule_ne_outputName_append (i j : Int) (rest : String) :
    Naming.submodule i ≠ Naming.outputName j ++ rest := by
  intro h
  have hl := congrArg (fun s => s.toList[5]?) h
  simp [Naming.submodule, Naming.outputName, Naming.moduleName, String.toList_append] at hl

/-- No two generated names of different kinds or for different numbers have the same text. -/
theorem text_injective (a b : GeneratedName) (h : a.text = b.text) : a = b := by
  cases a with
  | submodule i =>
    cases b with
    | submodule j => rw [submodule_injective i j h]
    | output j =>
      exact absurd (h.trans (String.append_empty).symm) (submodule_ne_outputName_append i j "")
    | outputAt j l =>
      exact absurd (h.trans String.append_assoc) (submodule_ne_outputName_append i j _)
  | output i =>
    cases b with
    | submodule j =>
      exact absurd (h.symm.trans (String.append_empty).symm) (submodule_ne_outputName_append j i "")
    | output j => rw [outputName_injective i j h]
    | outputAt j l => exact absurd h (outputName_ne_outputNameAt i j l)
  | outputAt i k =>
    cases b with
    | submodule j =>
      exact absurd (h.symm.trans String.append_assoc) (submodule_ne_outputName_append j i _)
    | output j => exact absurd h.symm (outputName_ne_outputNameAt j i k)
    | outputAt j l =>
      obtain ⟨rfl, rfl⟩ := outputNameAt_injective i j k l h
      rfl

def ofOrdinal (index : Int) (count ordinal : Nat) : GeneratedName :=
  if count = 1 then .output index else .outputAt index ordinal

theorem ofOrdinal_injective (i j : Int) (c d k l : Nat) (hk : k < c) (hl : l < d)
    (h : ofOrdinal i c k = ofOrdinal j d l) : i = j ∧ k = l ∧ (c = 1 ↔ d = 1) := by
  unfold ofOrdinal at h
  split at h <;> split at h
  · injection h
    omega
  · cases h
  · cases h
  · injection h
    omega

end GeneratedName

namespace Naming

theorem outputNames_eq_map (index : Int) (count : Nat) :
    outputNames index count =
      (List.range count).map fun k => (GeneratedName.ofOrdinal index count k).text := by
  unfold outputNames GeneratedName.ofOrdinal
  split
  · next h => simp [h, GeneratedName.text, List.range_succ]
  · rfl

theorem length_outputNames (index : Int) (count : Nat) :
    (outputNames index count).length = count := by
  rw [outputNames_eq_map, List.length_map, List.length_range]

theorem getElem?_outputNames (index : Int) (count k : Nat) (name : String) :
    (outputNames index count)[k]? = some name ↔
      k < count ∧ name = (GeneratedName.ofOrdinal index count k).text := by
  rw [outputNames_eq_map, List.getElem?_map]
  by_cases hk : k < count
  · rw [List.getElem?_range hk]
    simp [hk, eq_comm]
  · rw [List.getElem?_eq_none (by rw [List.length_range]; omega)]
    simp [hk]

/-- One name stands for one index and one ordinal, and tells whether the node has other outputs. -/
theorem getElem?_outputNames_inj (i j : Int) (c d k l : Nat) (name : String)
    (hi : (outputNames i c)[k]? = some name) (hj : (outputNames j d)[l]? = some name) :
    i = j ∧ k = l ∧ (c = 1 ↔ d = 1) := by
  obtain ⟨hk, rfl⟩ := (getElem?_outputNames i c k name).mp hi
  obtain ⟨hl, h⟩ := (getElem?_outputNames j d l _).mp hj
  exact GeneratedName.ofOrdinal_injective i j c d k l hk hl (GeneratedName.text_injective _ _ h)

/-! ### Names as attributes -/

/-- The text names an attribute of `self`: behind the point there is an identifier and no keyword. -/
def IsAttribute (text : String) : Prop := ∃ name, text = "self." ++ name ∧ isClassName name = true

theorem isAttribute_append_iff (name : String) :
    IsAttribute ("self." ++ name) ↔ isClassName name = true := by
  constructor
  · intro ⟨other, hsame, hother⟩
    rw [String.append_right_inj] at hsame
    rw [hsame]
    exact hother
  · intro h
    exact ⟨name, rfl, h⟩

theorem not_isKeyword_of_underscore (name : String) (h : '_' ∈ name.toList) :
    isKeyword name = false := by
  have hkeywords : ∀ word ∈ keywords, '_' ∉ word.toList := by decide +kernel
  rw [isKeyword, List.contains_eq_mem, decide_eq_false_iff_not]
  intro hmem
  exact hkeywords name hmem h

theorem isClassName_append (stem rest : String) (hstem : isIdentifier stem.toList = true)
    (hunderscore : '_' ∈ stem.toList) :
    isClassName (stem ++ rest) = true ↔ ∀ c ∈ rest.toList, continuesIdentifier c = true := by
  have hkeyword : isKeyword (stem ++ rest) = false := by
    apply not_isKeyword_of_underscore
    rw [String.toList_append]
    exact List.mem_append_left _ hunderscore
  rw [isClassName, hkeyword, String.toList_append]
  cases hchars : stem.toList with
  | nil =>
    rw [hchars] at hunderscore
    cases hunderscore
  | cons c cs =>
    rw [hchars, isIdentifier, Bool.and_eq_true] at hstem
    simp only [List.cons_append, isIdentifier, hstem.1, List.all_append, hstem.2, Bool.true_and,
      Bool.not_false, Bool.and_true, List.all_eq_true]

theorem decimalText_continues_iff (i : Int) :
    (∀ c ∈ (decimalText i).toList, continuesIdentifier c = true) ↔ 0 ≤ i := by
  have hdigits : ∀ c ∈ decimalDigits i.natAbs, continuesIdentifier c = true := by
    intro c hc
    rw [continuesIdentifier, isDigit_of_mem_decimalDigits i.natAbs c hc, Bool.or_true]
  rw [decimalText_toList]
  split
  · next hnegative =>
    constructor
    · intro h
      have hminus := h '-' List.mem_cons_self
      exact absurd hminus (by decide)
    · intro h
      omega
  · next hnonneg =>
    constructor
    · intro _
      omega
    · intro _
      exact hdigits

end Naming

namespace GeneratedName

def index : GeneratedName → Int
  | submodule index => index
  | output index => index
  | outputAt index _ => index

/-- A negative index has a sign, which no identifier has. -/
theorem isAttribute_text_iff (name : GeneratedName) :
    Naming.IsAttribute name.text ↔ 0 ≤ name.index := by
  have houtput : ∀ i rest, Naming.IsAttribute (Naming.outputName i ++ rest) ↔
      ∀ c ∈ (decimalText i ++ rest).toList, Naming.continuesIdentifier c = true := by
    intro i rest
    have hname : Naming.outputName i ++ rest =
        "self." ++ ("output_module_" ++ (decimalText i ++ rest)) := by
      rw [← String.append_assoc, ← String.append_assoc]
      rfl
    rw [hname, Naming.isAttribute_append_iff,
      Naming.isClassName_append "output_module_" _ (by decide) (by decide)]
  cases name with
  | submodule i =>
    rw [text, Naming.submodule, Naming.isAttribute_append_iff, Naming.moduleName,
      Naming.isClassName_append "module_" _ (by decide) (by decide),
      Naming.decimalText_continues_iff, index]
  | output i =>
    have htext := houtput i ""
    rw [String.append_empty, String.append_empty, Naming.decimalText_continues_iff] at htext
    exact htext
  | outputAt i k =>
    have htext := houtput i ("_" ++ decimalText k)
    have hunderscore : ∀ c ∈ "_".toList, Naming.continuesIdentifier c = true := by
      simp [Naming.continuesIdentifier, Naming.startsIdentifier]
    rw [text, Naming.outputNameAt, String.append_assoc, htext]
    simp only [String.toList_append, List.forall_mem_append, Naming.decimalText_continues_iff, index]
    constructor
    · intro h
      exact h.1
    · intro h
      exact ⟨h, hunderscore, by omega⟩

end GeneratedName

end Netscribe
