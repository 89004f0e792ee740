import Netscribe.Proofs.Generation

/-!
# Texts that stay on one line

A text stays on one line if it holds no line feed and no carriage return. Numbers, quoted literals and
generated names always do, whatever they are made from. A rendered value does if the texts that it
shows as they are do: source expressions and the raw names of tensors.
-/

namespace Netscribe

def Unbroken (cs : List Char) : Prop := ∀ c ∈ cs, c ≠ '\n' ∧ c ≠ '\r'

instance (cs : List Char) : Decidable (Unbroken cs) :=
  List.decidableBAll (fun c => c ≠ '\n' ∧ c ≠ '\r') cs

def SingleLine (s : String) : Prop := Unbroken s.toList

instance (s : String) : Decidable (SingleLine s) := inferInstanceAs (Decidable (Unbroken s.toList))

theorem unbroken_cons (c : Char) (cs : List Char) :
    Unbroken (c :: cs) ↔ (c ≠ '\n' ∧ c ≠ '\r') ∧ Unbroken cs := List.forall_mem_cons

theorem unbroken_append (cs ds : List Char) : Unbroken (cs ++ ds) ↔ Unbroken cs ∧ Unbroken ds :=
  List.forall_mem_append

theorem singleLine_append (s t : String) : SingleLine (s ++ t) ↔ SingleLine s ∧ SingleLine t := by
  unfold SingleLine
  rw [String.toList_append, unbroken_append]

theorem singleLine_ofList (cs : List Char) : SingleLine (String.ofList cs) ↔ Unbroken cs := by
  unfold SingleLine
  rw [String.toList_ofList]

theorem singleLine_empty : SingleLine "" := by decide

theorem singleLine_join (sep : String) (items : List String) (hsep : SingleLine sep)
    (h : ∀ s ∈ items, SingleLine s) : SingleLine (join sep items) := by
  induction items with
  | nil => exact singleLine_empty
  | cons s rest ih =>
    obtain ⟨hs, hrest⟩ := List.forall_mem_cons.mp h
    cases rest with
    | nil => exact hs
    | cons t more =>
      rw [join, singleLine_append, singleLine_append]
      · exact ⟨hs, hsep, ih hrest⟩
      · simp

theorem singleLine_commaJoin (items : List String) (h : ∀ s ∈ items, SingleLine s) :
    SingleLine (commaJoin items) := singleLine_join "," items (by decide) h

/-! ### Numbers -/

theorem unbroken_decimalDigits (n : Nat) : Unbroken (decimalDigits n) := by
  intro c hc
  have hdigit := isDigit_of_mem_decimalDigits n c hc
  constructor
  · rintro rfl
    revert hdigit
    decide
  · rintro rfl
    revert hdigit
    decide

theorem unbroken_replicate (k : Nat) (c : Char) (h : c ≠ '\n' ∧ c ≠ '\r') :
    Unbroken (List.replicate k c) := by
  intro d hd
  rw [List.eq_of_mem_replicate hd]
  exact h

theorem unbroken_of_subset {cs ds : List Char} (h : Unbroken ds) (hsub : cs ⊆ ds) : Unbroken cs :=
  fun c hc => h c (hsub hc)

theorem singleLine_decimalText (i : Int) : SingleLine (decimalText i) := by
  have hdigits := unbroken_decimalDigits i.natAbs
  unfold SingleLine
  rw [decimalText_toList]
  split
  · rw [unbroken_cons]
    exact ⟨by decide, hdigits⟩
  · exact hdigits

namespace Decimal

theorem unbroken_positional (d : Decimal) : Unbroken d.positional := by
  have hdigits := unbroken_decimalDigits d.digits
  have hzeros := fun k => unbroken_replicate k '0' (by decide)
  simp only [positional]
  split
  · split
    · exact hdigits
    · rw [unbroken_append]
      exact ⟨hdigits, hzeros _⟩
  · split
    · rw [unbroken_cons, unbroken_cons, unbroken_append]
      exact ⟨by decide, by decide, hzeros _, hdigits⟩
    · rw [unbroken_append, unbroken_cons]
      exact ⟨unbroken_of_subset hdigits (List.take_subset ..), by decide,
        unbroken_of_subset hdigits (List.drop_subset ..)⟩

theorem unbroken_exponentText (e : Int) : Unbroken (exponentText e) := by
  have hdigits := unbroken_decimalDigits e.natAbs
  simp only [exponentText]
  rw [unbroken_cons]
  constructor
  · split <;> decide
  · split
    · rw [unbroken_cons]
      exact ⟨by decide, hdigits⟩
    · exact hdigits

theorem unbroken_scientific (d : Decimal) : Unbroken d.scientific := by
  have hdigits := unbroken_decimalDigits d.digits
  have hexponent := unbroken_exponentText d.topExponent
  unfold scientific
  split
  · exact fun c hc => by cases hc
  · next c hd =>
    rw [hd, unbroken_cons] at hdigits
    rw [unbroken_cons, unbroken_cons]
    exact ⟨hdigits.1, by decide, hexponent⟩
  · next c rest _ hd =>
    rw [hd, unbroken_cons] at hdigits
    rw [unbroken_cons, unbroken_cons, unbroken_append, unbroken_cons]
    exact ⟨hdigits.1, by decide, hdigits.2, by decide, hexponent⟩

end Decimal

theorem singleLine_float (x : Binary64) : SingleLine (Literal.float x) := by
  have hpositional := (Decimal.shortest x).unbroken_positional
  have hscientific := (Decimal.shortest x).unbroken_scientific
  unfold Literal.float Binary64.render
  dsimp only
  split
  · decide
  · split
    · split <;> decide
    · rw [singleLine_ofList]
      -- the digits, in either notation and with or without a point at the end
      have hbody : Unbroken (if x.isZero ∨ (Literal.floatLayout.least ≤ (Decimal.shortest x).topExponent ∧
            (Decimal.shortest x).topExponent < Literal.floatLayout.limit) then
          if Literal.floatLayout.pointed ∧ '.' ∉ (Decimal.shortest x).positional then
            (Decimal.shortest x).positional ++ ['.', '0']
          else (Decimal.shortest x).positional
        else (Decimal.shortest x).scientific) := by
        split
        · split
          · rw [unbroken_append]
            exact ⟨hpositional, by decide⟩
          · exact hpositional
        · exact hscientific
      split
      · rw [unbroken_cons]
        exact ⟨by decide, hbody⟩
      · exact hbody

/-! ### Literals and generated names -/

theorem delimiter_cases (cs : List Char) :
    Literal.delimiter cs = Literal.singleQuote ∨ Literal.delimiter cs = Literal.doubleQuote := by
  unfold Literal.delimiter
  split
  · exact .inr rfl
  · exact .inl rfl

theorem unbroken_escape (d c : Char) (hd : d ≠ '\n' ∧ d ≠ '\r') : Unbroken (Literal.escape d c) := by
  unfold Literal.escape
  split
  · decide
  · split
    · decide
    · next hn =>
      split
      · decide
      · next hr =>
        split
        · decide
        · split
          · rw [unbroken_cons, unbroken_cons]
            exact ⟨by decide, hd, by decide⟩
          · rw [unbroken_cons]
            exact ⟨⟨hn, hr⟩, by decide⟩

/-- A quoted literal stays on one line, whatever text it quotes. -/
theorem singleLine_literal (s : String) : SingleLine (Literal.string s) := by
  have hd : Literal.delimiter s.toList ≠ '\n' ∧ Literal.delimiter s.toList ≠ '\r' := by
    rcases delimiter_cases s.toList with h | h
    · rw [h]
      decide
    · rw [h]
      decide
  unfold Literal.string Literal.quote
  rw [singleLine_ofList, unbroken_cons, unbroken_append, unbroken_cons]
  refine ⟨hd, fun c hc => ?_, hd, fun c hc => by cases hc⟩
  obtain ⟨c', -, hc'⟩ := List.mem_flatMap.mp hc
  exact unbroken_escape _ c' hd c hc'

theorem singleLine_submodule (i : Int) : SingleLine (Naming.submodule i) := by
  unfold Naming.submodule Naming.moduleName
  rw [singleLine_append, singleLine_append]
  exact ⟨by decide, by decide, singleLine_decimalText i⟩

theorem singleLine_outputName (i : Int) : SingleLine (Naming.outputName i) := by
  unfold Naming.outputName Naming.moduleName
  rw [singleLine_append, singleLine_append]
  exact ⟨by decide, by decide, singleLine_decimalText i⟩

theorem singleLine_outputNames (i : Int) (count : Nat) :
    ∀ s ∈ Naming.outputNames i count, SingleLine s := by
  unfold Naming.outputNames
  split
  · intro s hs
    rw [List.mem_singleton.mp hs]
    exact singleLine_outputName i
  · intro s hs
    obtain ⟨k, -, rfl⟩ := List.mem_map.mp hs
    unfold Naming.outputNameAt
    rw [singleLine_append, singleLine_append]
    exact ⟨⟨singleLine_outputName i, by decide⟩, singleLine_decimalText k⟩

theorem singleLine_symbol (nodes : List Node) (x : String) :
    SingleLine ((SymbolTable.ofNodes nodes).symbol x).name := by
  by_cases hx : (SymbolTable.ofNodes nodes).Has x
  · obtain ⟨n, -, hb⟩ := List.mem_flatMap.mp (SymbolTable.symbol_mem_of_has _ x hx)
    exact singleLine_outputNames n.index n.outputs.length _ (List.of_mem_zip hb).2
  · simp only [SymbolTable.symbol, (SymbolTable.resolve?_eq_none _ x).mpr hx, Option.getD_none]
    exact singleLine_empty

/-! ### Values -/

namespace Value

mutual

/-- The texts in a value that are written as they are, at any depth: source expressions, and the
names of tensors. -/
def rawTexts : Value → List String
  | expr s => [s]
  | tensor name => [name]
  | tuple items => rawTextsAll items
  | list items => rawTextsAll items
  | _ => []

def rawTextsAll : List Value → List String
  | [] => []
  | v :: rest => rawTexts v ++ rawTextsAll rest

end

theorem mem_rawTextsAll (vs : List Value) (v : Value) (hv : v ∈ vs) (s : String)
    (hs : s ∈ v.rawTexts) : s ∈ rawTextsAll vs := by
  induction vs with
  | nil => cases hv
  | cons w rest ih =>
    rw [rawTextsAll, List.mem_append]
    rcases List.mem_cons.mp hv with rfl | hv
    · exact .inl hs
    · exact .inr (ih hv)

end Value

/-- The attribute names of a node, and the texts in its attribute values that are written as they
are. -/
def Node.rawTexts (n : Node) : List String :=
  n.op.attributes.flatMap fun a => a.name :: a.value.rawTexts

theorem Operator.mem_attributes_of_attribute? (op : Operator) (name : String) (v : Value)
    (h : op.attribute? name = some v) : ⟨name, v⟩ ∈ op.attributes := by
  unfold Operator.attribute? at h
  obtain ⟨a, ha, rfl⟩ := Option.map_eq_some_iff.mp h
  have hname : a.name = name := by simpa using List.find?_some ha
  rw [← hname]
  exact List.mem_of_find?_eq_some ha

/-- The name and the raw texts of an attribute are among those of its node. -/
theorem Node.rawTexts_of_attribute? (n : Node) (h : ∀ s ∈ n.rawTexts, SingleLine s) (name : String)
    (v : Value) (hv : n.op.attribute? name = some v) :
    SingleLine name ∧ ∀ s ∈ v.rawTexts, SingleLine s := by
  have hmem := n.op.mem_attributes_of_attribute? name v hv
  refine ⟨h name ?_, fun s hs => h s ?_⟩
  · exact List.mem_flatMap.mpr ⟨_, hmem, List.mem_cons_self ..⟩
  · exact List.mem_flatMap.mpr ⟨_, hmem, List.mem_cons_of_mem _ hs⟩

section

variable (nodes : List Node)

theorem singleLine_atom (v : Value) (h : ∀ s ∈ v.rawTexts, SingleLine s) :
    SingleLine ((SymbolTable.ofNodes nodes).atom v).render := by
  have hnone : SingleLine "None" := by decide
  have hbool : ∀ b : Bool, SingleLine (if b then "True" else "False") := by decide
  unfold SymbolTable.atom
  cases v with
  | unset => exact hnone
  | none => exact hnone
  | bool b => exact hbool b
  | int i => exact singleLine_decimalText i
  | float x => exact singleLine_float x
  | str s => exact singleLine_literal s
  | expr s => exact h s (List.mem_singleton.mpr rfl)
  | tensor name =>
    have hsymbol := singleLine_symbol nodes name
    unfold SymbolTable.symbol at hsymbol
    cases hr : (SymbolTable.ofNodes nodes).resolve? name with
    | none =>
      simp only [SymbolTable.atom?, hr, Option.getD_some, Atom.render]
      exact h name (List.mem_singleton.mpr rfl)
    | some symbol =>
      rw [hr] at hsymbol
      simp only [SymbolTable.atom?, hr, Option.getD_some, Atom.render]
      exact hsymbol
  | tuple items => exact singleLine_empty
  | list items => exact singleLine_empty

theorem singleLine_atoms (vs : List Value) (h : ∀ s ∈ Value.rawTextsAll vs, SingleLine s) :
    SingleLine (commaJoin ((vs.map (SymbolTable.ofNodes nodes).atom).map Atom.render)) := by
  apply singleLine_commaJoin
  intro s hs
  rw [List.map_map] at hs
  obtain ⟨v, hv, rfl⟩ := List.mem_map.mp hs
  exact singleLine_atom nodes v fun x hx => h x (Value.mem_rawTextsAll vs v hv x hx)

theorem singleLine_rendered (v : Value) (h : ∀ s ∈ v.rawTexts, SingleLine s) :
    SingleLine ((SymbolTable.ofNodes nodes).rendered v).text := by
  cases v with
  | tuple items =>
    simp only [SymbolTable.rendered, Rendered.text]
    rw [singleLine_append, singleLine_append]
    exact ⟨⟨by decide, singleLine_atoms nodes items h⟩, by decide⟩
  | list items =>
    simp only [SymbolTable.rendered, Rendered.text]
    rw [singleLine_append, singleLine_append]
    exact ⟨⟨by decide, singleLine_atoms nodes items h⟩, by decide⟩
  | _ => exact singleLine_atom nodes _ h

theorem singleLine_keywords (n : Node) (h : ∀ s ∈ n.rawTexts, SingleLine s) (names : List String) :
    ∀ k ∈ (SymbolTable.ofNodes nodes).keywords n.op names, SingleLine k.text := by
  intro k hk
  unfold SymbolTable.keywords at hk
  obtain ⟨name, -, hname⟩ := List.mem_filterMap.mp hk
  obtain ⟨v, hv, rfl⟩ := Option.map_eq_some_iff.mp hname
  obtain ⟨hkey, hvalue⟩ := n.rawTexts_of_attribute? h name v hv
  unfold Keyword.text
  rw [singleLine_append, singleLine_append]
  exact ⟨⟨hkey, by decide⟩, singleLine_rendered nodes v hvalue⟩

end

end Netscribe
