import Netscribe.Document.Graph
import Netscribe.Proofs.Schema

/-!
# Numbers that are not finite under the schema

A document is checked with texts in place of the numbers that are not finite. `Spares` says at which
paths of a value such a text passes a schema that the number would not pass; it goes through arrays
and objects, so that for graph documents the paths can be listed: they are the places of names.
-/

namespace Netscribe

open Document (JsonType Schema jsonCompatible)
open Yaml (Data Scalar)

/-- The value at a path: a list is entered by a position, an object by a key. -/
inductive Yaml.Data.At : Data → List String → Data → Prop where
  | here (d : Data) : At d [] d
  | item (items : List Data) (i : Nat) (d : Data) (path : List String) (e : Data)
    (hitem : items[i]? = some d) (hat : At d path e) : At (.list items) (decimalText i :: path) e
  | entry (entries : List (String × Data)) (key : String) (d : Data) (path : List String) (e : Data)
    (hentry : (key, d) ∈ entries) (hat : At d path e) : At (.object entries) (key :: path) e

/-- The value has a number that is not finite at the path. -/
def Yaml.Data.NonFiniteAt (d : Data) (path : List String) : Prop :=
  ∃ x : Binary64, x.isFinite = false ∧ d.At path (.scalar (.float x))

namespace Document

/-! ### Verdicts -/

namespace Schema

/-- The schema accepts a value exactly if it accepts the value with texts, and no number that is not
finite stands at one of the paths. -/
def Spares (s : Schema) (paths : List String → Prop) : Prop :=
  ∀ d, s.accepts d = true ↔
    s.accepts (jsonCompatible d) = true ∧ ∀ path, d.NonFiniteAt path → ¬ paths path

theorem Spares.congr {s : Schema} {paths paths' : List String → Prop} (h : s.Spares paths)
    (hpaths : ∀ path, paths path ↔ paths' path) : s.Spares paths' := by
  intro d
  rw [h d]
  simp only [hpaths]

theorem text_spares : Spares (text 1) fun path => path = [] := by
  intro d
  rw [accepts_text_iff, accepts_text_iff]
  cases d with
  | scalar v =>
    rw [jsonCompatible]
    rcases compatibleScalar_cases v with ⟨hsame, hfinite⟩ | ⟨x, s, rfl, hx, htext, hlength⟩
    · rw [hsame]
      refine ⟨fun h => ⟨h, ?_⟩, fun h => h.1⟩
      rintro path ⟨x, hx, hat⟩ -
      cases hat
      rw [hfinite x rfl] at hx
      cases hx
    · constructor
      · rintro ⟨_, n, h, hn, -⟩
        cases h
        cases hn
      · rintro ⟨-, hnone⟩
        exact absurd rfl (hnone [] ⟨x, hx, .here _⟩)
  | _ => simp [jsonCompatible]

/-- A schema that takes neither the number nor its text tells no values apart. -/
theorem spares_nowhere (s : Schema)
    (h : ∀ d, s.accepts d = true ↔ s.accepts (jsonCompatible d) = true) :
    Spares s fun _ => False := by
  intro d
  rw [h d]
  exact ⟨fun hd => ⟨hd, fun _ _ => id⟩, fun hd => hd.1⟩

theorem integer_spares (least : Int) : Spares (integer least) fun _ => False := by
  apply spares_nowhere
  intro d
  rw [accepts_integer_iff, accepts_integer_iff]
  cases d with
  | scalar v =>
    rw [jsonCompatible]
    rcases compatibleScalar_cases v with ⟨hsame, -⟩ | ⟨x, s, rfl, hx, htext, -⟩
    · rw [hsame]
    · rw [htext]
      simp [isBelow?, Binary64.isInteger, hx]
  | _ => simp [jsonCompatible]

theorem typed_spares (types : List JsonType) (hnumber : .number ∉ types) (hstring : .string ∉ types) :
    Spares (typed types) fun _ => False := by
  apply spares_nowhere
  intro d
  rw [accepts_typed_iff, accepts_typed_iff]
  cases d with
  | scalar v =>
    rw [jsonCompatible]
    rcases compatibleScalar_cases v with ⟨hsame, -⟩ | ⟨x, s, rfl, hx, htext, -⟩
    · rw [hsame]
    · rw [htext]
      simp [jsonType, scalarType, hnumber, hstring]
  | _ => simp [jsonCompatible, jsonType]

theorem array_spares (s : Schema) (paths : List String → Prop)
    (h : ∀ i, s.Spares fun rest => paths (i :: rest)) : Spares (array s) paths := by
  intro d
  rw [accepts_array_iff, accepts_array_iff]
  cases d with
  | list ds =>
    rw [jsonCompatible, jsonCompatibleItems_eq_map]
    constructor
    · rintro ⟨_, heq, hall⟩
      cases heq
      refine ⟨⟨_, rfl, ?_⟩, ?_⟩
      · intro x hx
        obtain ⟨y, hy, rfl⟩ := List.mem_map.mp hx
        exact ((h "" y).mp (hall y hy)).1
      · rintro path ⟨x, hx, hat⟩ hpath
        cases hat with
        | item _ i y rest _ hi hrest =>
          have hy := hall y (List.mem_of_getElem? hi)
          exact ((h (decimalText i) y).mp hy).2 rest ⟨x, hx, hrest⟩ hpath
    · rintro ⟨⟨_, heq, hall⟩, hnone⟩
      cases heq
      refine ⟨ds, rfl, fun y hy => ?_⟩
      obtain ⟨i, hi⟩ := List.mem_iff_getElem?.mp hy
      refine (h (decimalText i) y).mpr ⟨hall _ (List.mem_map_of_mem hy), ?_⟩
      rintro path ⟨x, hx, hat⟩
      exact hnone _ ⟨x, hx, .item ds i y path _ hi hat⟩
  | _ => simp [jsonCompatible]

theorem object_spares (required : List String) (properties : List (String × Schema))
    (paths : List String → Prop)
    (h : ∀ p ∈ properties, p.2.Spares fun rest => paths (p.1 :: rest)) :
    Spares (object required properties) paths := by
  have hproperty : ∀ key s, properties.lookup key = some s →
      s.Spares fun rest => paths (key :: rest) := by
    intro key s hs
    obtain ⟨before, after, hsplit, -⟩ := List.lookup_eq_some_iff.mp hs
    exact h (key, s) (by rw [hsplit]; simp)
  intro d
  rw [accepts_object_iff, accepts_object_iff]
  cases d with
  | object entries =>
    rw [jsonCompatible, jsonCompatibleEntries_eq_map]
    -- the keys stay as they are
    have hkeys : (entries.map fun e => (e.1, jsonCompatible e.2)).map (·.1) = entries.map (·.1) := by
      simp
    constructor
    · rintro ⟨_, heq, hrequired, hknown, hall⟩
      cases heq
      refine ⟨⟨_, rfl, by rwa [hkeys], by rwa [hkeys], ?_⟩, ?_⟩
      · intro e he s hs
        obtain ⟨e', he', rfl⟩ := List.mem_map.mp he
        exact ((hproperty e'.1 s hs e'.2).mp (hall e' he' s hs)).1
      · rintro path ⟨x, hx, hat⟩ hpath
        cases hat with
        | entry _ key y rest _ hentry hrest =>
          have hlisted : (properties.lookup key).isSome = true := by
            obtain ⟨p, hp, hkey⟩ := List.mem_map.mp (hknown (List.mem_map_of_mem hentry))
            exact List.lookup_isSome_iff.mpr ⟨p, hp, by simp [hkey]⟩
          obtain ⟨s, hs⟩ := Option.isSome_iff_exists.mp hlisted
          have hy := hall (key, y) hentry s hs
          exact ((hproperty key s hs y).mp hy).2 rest ⟨x, hx, hrest⟩ hpath
    · rintro ⟨⟨_, heq, hrequired, hknown, hall⟩, hnone⟩
      cases heq
      rw [hkeys] at hrequired hknown
      refine ⟨entries, rfl, hrequired, hknown, fun e he s hs => ?_⟩
      refine (hproperty e.1 s hs e.2).mpr ⟨?_, ?_⟩
      · exact hall (e.1, jsonCompatible e.2) (List.mem_map_of_mem he) s hs
      · rintro path ⟨x, hx, hat⟩
        exact hnone _ ⟨x, hx, .entry entries e.1 e.2 path _ he hat⟩
  | _ => simp [jsonCompatible]

end Schema

/-! ### Graph documents -/

/-- The places of names in a node: its name, its operator, its inputs and its outputs. -/
def IsNodeNamePath (path : List String) : Prop :=
  path = ["name"] ∨ path = ["op"] ∨ (∃ i, path = ["inputs", i]) ∨ ∃ i, path = ["outputs", i]

/-- The places of names in a graph document: its name, its outputs, and those in its nodes. -/
def IsNamePath (path : List String) : Prop :=
  path = ["name"] ∨ (∃ i, path = ["outputs", i]) ∨
    ∃ i rest, path = "nodes" :: i :: rest ∧ IsNodeNamePath rest

theorem namesSchema_spares : namesSchema.Spares fun path => ∃ i, path = [i] := by
  apply Schema.array_spares
  intro i
  apply Schema.text_spares.congr
  intro path
  simp

theorem nodeSchema_spares : nodeSchema.Spares IsNodeNamePath := by
  apply Schema.object_spares
  simp only [List.forall_mem_cons]
  refine ⟨?_, ?_, ?_, ?_, ?_, ?_, fun p hp => by cases hp⟩
  · exact (Schema.integer_spares 0).congr fun path => by simp [IsNodeNamePath]
  · exact Schema.text_spares.congr fun path => by simp [IsNodeNamePath]
  · exact Schema.text_spares.congr fun path => by simp [IsNodeNamePath]
  · exact namesSchema_spares.congr fun path => by simp [IsNodeNamePath]
  · exact namesSchema_spares.congr fun path => by simp [IsNodeNamePath]
  · apply (Schema.typed_spares _ (by decide) (by decide)).congr
    intro path
    simp [IsNodeNamePath]

theorem graphSchema_spares : graphSchema.Spares IsNamePath := by
  apply Schema.object_spares
  simp only [List.forall_mem_cons]
  refine ⟨?_, ?_, ?_, fun p hp => by cases hp⟩
  · exact Schema.text_spares.congr fun path => by simp [IsNamePath]
  · exact namesSchema_spares.congr fun path => by simp [IsNamePath]
  · apply Schema.array_spares
    intro i
    apply nodeSchema_spares.congr
    intro path
    constructor
    · intro h
      exact .inr (.inr ⟨i, path, rfl, h⟩)
    · rintro (h | ⟨j, h⟩ | ⟨j, rest, h, hrest⟩)
      · simp at h
      · simp at h
      · obtain ⟨rfl, rfl⟩ : i = j ∧ path = rest := by simpa using h
        exact hrest

/-- A graph document passes with its numbers as they are exactly if it passes the check, which sees
texts in place of those that are not finite, and none of these stands in place of a name. -/
theorem accepted_iff_no_nonFinite_name (d : Data) :
    graphSchema.accepts d = true ↔
      graphSchema.accepts (jsonCompatible d) = true ∧
        ∀ path, IsNamePath path → ¬ d.NonFiniteAt path := by
  rw [graphSchema_spares d]
  constructor
  · rintro ⟨haccepts, hnone⟩
    exact ⟨haccepts, fun path hpath hat => hnone path hat hpath⟩
  · rintro ⟨haccepts, hnone⟩
    exact ⟨haccepts, fun path hat hpath => hnone path hpath hat⟩

def named (name : String) : List UInt8 :=
  Utf8.encode ("\x7bname: " ++ name ++ ", nodes: []\x7d")

/-- The document passes the check, and only as it is with texts. -/
def passesAsText (bytes : List UInt8) : Bool :=
  match parse bytes with
  | .ok n =>
    match Data.ofDocument n with
    | .ok d =>
      (validateNode n).isOk && graphSchema.accepts (jsonCompatible d) && !graphSchema.accepts d
    | .error _ => false
  | .error _ => false

def rejectsName (bytes : List UInt8) : Bool :=
  match validate bytes with
  | .error (.invalid vs) => vs == [⟨["name"], .wrongType .number⟩]
  | _ => false

theorem nan_passes_as_name :
    (∃ n d, parse (named ".nan") = .ok n ∧ Data.ofDocument n = .ok d ∧ validateNode n = .ok () ∧
        graphSchema.accepts (jsonCompatible d) = true ∧ graphSchema.accepts d = false) ∧
      validate (named "1.5") = .error (.invalid [⟨["name"], .wrongType .number⟩]) := by
  have hpasses : passesAsText (named ".nan") = true := by decide +kernel
  have hrejects : rejectsName (named "1.5") = true := by decide +kernel
  constructor
  · unfold passesAsText at hpasses
    split at hpasses
    · next n hn =>
      split at hpasses
      · next d hd =>
        simp only [Bool.and_eq_true, Bool.not_eq_true'] at hpasses
        obtain ⟨⟨hvalid, hcompatible⟩, hraw⟩ := hpasses
        cases hv : validateNode n with
        | error e =>
          rw [hv] at hvalid
          cases hvalid
        | ok u => exact ⟨n, d, hn, hd, hv, hcompatible, hraw⟩
      · cases hpasses
    · cases hpasses
  · unfold rejectsName at hrejects
    split at hrejects
    · next vs hvs =>
      rw [hvs, eq_of_beq hrejects]
    · cases hrejects

end Document

end Netscribe
