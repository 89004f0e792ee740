import Netscribe.Document.Schema

/-!
# What each schema accepts

A value is accepted if the list of its violations is empty. One lemma for each kind of schema says what
this asks of the value and of its parts. The values that are checked have texts in place of the numbers
that are not finite.
-/

namespace Netscribe.Document

open Yaml (Data Scalar)

/-! ### Replacing numbers by texts -/

theorem jsonCompatibleItems_eq_map (items : List Data) :
    jsonCompatibleItems items = items.map jsonCompatible := by
  induction items with
  | nil => rfl
  | cons d rest ih => rw [jsonCompatibleItems, ih, List.map_cons]

theorem jsonCompatibleEntries_eq_map (entries : List (String × Data)) :
    jsonCompatibleEntries entries = entries.map fun e => (e.1, jsonCompatible e.2) := by
  induction entries with
  | nil => rfl
  | cons e rest ih => rw [jsonCompatibleEntries, ih, List.map_cons]

theorem nonFinite?_of_isFinite (x : Binary64) (h : x.isFinite = true) : nonFinite? x = none := by
  have hfield : x.field ≠ 2047 := by simpa [Binary64.isFinite] using h
  simp [nonFinite?, Binary64.isNaN, Binary64.isInfinite, hfield]

theorem nonFinite?_of_not_isFinite (x : Binary64) (h : x.isFinite = false) :
    ∃ s, nonFinite? x = some s ∧ 1 ≤ s.length := by
  have hfield : x.field = 2047 := by simpa [Binary64.isFinite] using h
  unfold nonFinite?
  split
  · exact ⟨_, rfl, by decide⟩
  · next hnan =>
    have hinfinite : x.isInfinite = true := by
      simpa [Binary64.isNaN, Binary64.isInfinite, hfield] using hnan
    rw [if_pos hinfinite]
    split
    · exact ⟨_, rfl, by decide⟩
    · exact ⟨_, rfl, by decide⟩

/-- A scalar stays as it is, or it is a number that is not finite and becomes a text. -/
theorem compatibleScalar_cases (v : Scalar) :
    (compatibleScalar v = v ∧ ∀ x, v = .float x → x.isFinite = true) ∨
      ∃ x s, v = .float x ∧ x.isFinite = false ∧ compatibleScalar v = .text s ∧ 1 ≤ s.length := by
  cases v with
  | float x =>
    cases hx : x.isFinite with
    | true =>
      refine .inl ⟨?_, ?_⟩
      · simp only [compatibleScalar, nonFinite?_of_isFinite x hx]
      · intro y hy
        cases hy
        exact hx
    | false =>
      obtain ⟨s, hs, hlength⟩ := nonFinite?_of_not_isFinite x hx
      refine .inr ⟨x, s, rfl, hx, ?_, hlength⟩
      simp only [compatibleScalar, hs]
  | _ => exact .inl ⟨rfl, fun x hx => by cases hx⟩

/-! ### Acceptance -/

namespace Schema

theorem accepts_iff_violations (s : Schema) (d : Data) :
    s.accepts d = true ↔ s.violations d = [] := List.isEmpty_iff

theorem itemViolations_eq_nil (s : Schema) (i : Nat) (ds : List Data) :
    itemViolations s i ds = [] ↔ ∀ d ∈ ds, s.accepts d = true := by
  induction ds generalizing i with
  | nil => simp [itemViolations]
  | cons d rest ih =>
    rw [itemViolations, List.append_eq_nil_iff, List.map_eq_nil_iff, ih, List.forall_mem_cons,
      accepts_iff_violations]

theorem entryViolations_eq_nil (properties : List (String × Schema))
    (entries : List (String × Data)) :
    entryViolations properties entries = [] ↔
      ∀ e ∈ entries, ∀ s, properties.lookup e.1 = some s → s.accepts e.2 = true := by
  induction entries with
  | nil => simp [entryViolations]
  | cons e rest ih =>
    rw [entryViolations, List.append_eq_nil_iff, ih, List.forall_mem_cons]
    cases hlookup : properties.lookup e.1 with
    | none => simp
    | some s => simp [accepts_iff_violations]

theorem keyBreaches_eq_nil (required known keys : List String) :
    keyBreaches required known keys = [] ↔ required ⊆ keys ∧ keys ⊆ known := by
  simp [keyBreaches, List.append_eq_nil_iff, List.filter_eq_nil_iff, List.subset_def]

theorem accepts_text_iff (least : Nat) (d : Data) :
    (text least).accepts d = true ↔
      ∃ v n, d = .scalar v ∧ textLength? v = some n ∧ least ≤ n := by
  rw [accepts_iff_violations]
  cases d with
  | scalar v =>
    rw [violations, scalarViolations]
    cases hlength : textLength? v with
    | none => simp [here, hlength]
    | some n => simp [here, hlength]
  | _ => simp [violations, here]

theorem accepts_integer_iff (least : Int) (d : Data) :
    (integer least).accepts d = true ↔ ∃ v, d = .scalar v ∧ isBelow? least v = some false := by
  rw [accepts_iff_violations]
  cases d with
  | scalar v =>
    rw [violations, scalarViolations]
    cases hbelow : isBelow? least v with
    | none => simp [here, hbelow]
    | some b => cases b <;> simp [here, hbelow]
  | _ => simp [violations, here]

theorem accepts_typed_iff (types : List JsonType) (d : Data) :
    (typed types).accepts d = true ↔ (∀ es, d ≠ .table es) ∧ jsonType d ∈ types := by
  rw [accepts_iff_violations]
  cases d with
  | table es => simp [violations, here]
  | _ => simp [violations, scalarViolations, here, jsonType]

theorem accepts_array_iff (s : Schema) (d : Data) :
    (array s).accepts d = true ↔ ∃ ds, d = .list ds ∧ ∀ x ∈ ds, s.accepts x = true := by
  rw [accepts_iff_violations]
  cases d with
  | list ds => simp [violations, itemViolations_eq_nil]
  | _ => simp [violations, scalarViolations, here]

theorem accepts_object_iff (required : List String) (properties : List (String × Schema))
    (d : Data) :
    (object required properties).accepts d = true ↔
      ∃ entries, d = .object entries ∧ required ⊆ entries.map (·.1) ∧
        entries.map (·.1) ⊆ properties.map (·.1) ∧
        ∀ e ∈ entries, ∀ s, properties.lookup e.1 = some s → s.accepts e.2 = true := by
  rw [accepts_iff_violations]
  cases d with
  | object entries =>
    rw [violations, List.append_eq_nil_iff, List.map_eq_nil_iff, keyBreaches_eq_nil,
      entryViolations_eq_nil, and_assoc]
    constructor
    · intro h
      exact ⟨entries, rfl, h⟩
    · rintro ⟨_, h, hall⟩
      cases h
      exact hall
  | _ => simp [violations, scalarViolations, here]

end Schema

end Netscribe.Document
