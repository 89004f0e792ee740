import Mathlib.Data.List.Forall2
import Netscribe.Document.Attribute
import Netscribe.Proofs.ScalarSpelling

/-!
# The grammar of attribute values

A node without aliases is an attribute value by rules that look at one level of it: a scalar by its
tag, a sequence by its items, a mapping by its one key. `Denotes` has these rules with the value that
each node stands for, item by item; the decoder gives a node exactly the value that it denotes. A plain
scalar without a tag denotes what it spells.
-/

namespace Netscribe

/-- There is no alias in the node, not even one of a node around it. -/
inductive Yaml.Node.WrittenOut : Yaml.Node → Prop
  | scalar (line : Nat) (tag text : String) : WrittenOut (.scalar line tag text)
  | sequence (line : Nat) (tag : String) (items : List Yaml.Node)
      (hitems : ∀ n ∈ items, WrittenOut n) : WrittenOut (.sequence line tag items)
  | mapping (line : Nat) (tag : String) (entries : List (Yaml.Node × Yaml.Node))
      (hkeys : ∀ e ∈ entries, WrittenOut e.1) (hvalues : ∀ e ∈ entries, WrittenOut e.2) :
      WrittenOut (.mapping line tag entries)

namespace Document

open Yaml (Scalar)

/-! ### The grammar -/

/-- The keys that tag a scalar, and the values they make of its text. -/
def textKeys : List (String × (String → Value)) :=
  [("tensor", .tensor), ("expr", .expr), ("str", .str)]

/-- The keys that tag a sequence, and the values they make of its items. -/
def itemKeys : List (String × (List Value → Value)) := [("tuple", .tuple), ("list", .list)]

inductive ScalarDenotes (tag text : String) : Value → Prop
  | null (htag : tag = Yaml.Tag.null) : ScalarDenotes tag text .none
  | bool (b : Bool) (htag : tag = Yaml.Tag.bool) (h : Scalar.resolve tag text = .ok (.bool b)) :
      ScalarDenotes tag text (.bool b)
  | int (i : Int) (htag : tag = Yaml.Tag.int) (h : Scalar.resolve tag text = .ok (.int i))
      (hleast : -(Scalar.signedEnd : Int) ≤ i) (hmost : i < Scalar.signedEnd) :
      ScalarDenotes tag text (.int i)
  | float (x : Binary64) (htag : tag = Yaml.Tag.float)
      (h : Scalar.resolve tag text = .ok (.float x)) : ScalarDenotes tag text (.float x)
  | text (htag : tag ∉ [Yaml.Tag.null, Yaml.Tag.bool, Yaml.Tag.int, Yaml.Tag.float]) :
      ScalarDenotes tag text (.str text)

/-- The value of a node: a scalar, a list for a sequence, and what its one key makes of a mapping. -/
inductive Denotes : Yaml.Node → Value → Prop
  | scalar {line : Nat} {tag text : String} {v : Value} (h : ScalarDenotes tag text v) :
      Denotes (.scalar line tag text) v
  | sequence {line : Nat} {tag : String} {items : List Yaml.Node} {vs : List Value}
      (h : List.Forall₂ Denotes items vs) : Denotes (.sequence line tag items) (.list vs)
  | text {line keyLine textLine : Nat} {tag keyTag textTag key text : String} {make : String → Value}
      (hkey : (key, make) ∈ textKeys) (htag : textTag ≠ Yaml.Tag.null) :
      Denotes (.mapping line tag [(.scalar keyLine keyTag key, .scalar textLine textTag text)])
        (make text)
  | items {line keyLine itemsLine : Nat} {tag keyTag itemsTag key : String} {items : List Yaml.Node}
      {vs : List Value} {make : List Value → Value} (hkey : (key, make) ∈ itemKeys)
      (h : List.Forall₂ Denotes items vs) :
      Denotes (.mapping line tag [(.scalar keyLine keyTag key, .sequence itemsLine itemsTag items)])
        (make vs)

inductive IsValue : Yaml.Node → Prop
  | scalar {line : Nat} {tag text : String} {v : Value} (h : ScalarDenotes tag text v) :
      IsValue (.scalar line tag text)
  | sequence {line : Nat} {tag : String} {items : List Yaml.Node} (h : ∀ n ∈ items, IsValue n) :
      IsValue (.sequence line tag items)
  | text {line keyLine textLine : Nat} {tag keyTag textTag key text : String}
      (hkey : key ∈ ["tensor", "expr", "str"]) (htag : textTag ≠ Yaml.Tag.null) :
      IsValue (.mapping line tag [(.scalar keyLine keyTag key, .scalar textLine textTag text)])
  | items {line keyLine itemsLine : Nat} {tag keyTag itemsTag key : String} {items : List Yaml.Node}
      (hkey : key ∈ ["tuple", "list"]) (h : ∀ n ∈ items, IsValue n) :
      IsValue (.mapping line tag [(.scalar keyLine keyTag key, .sequence itemsLine itemsTag items)])

/-! ### Scalars -/

theorem scalarValue_of_denotes (line : Nat) {tag text : String} {v : Value}
    (h : ScalarDenotes tag text v) : scalarValue line tag text = .ok v := by
  cases h with
  | null htag => rw [scalarValue, if_pos htag]
  | bool b htag hread =>
    subst htag
    rw [scalarValue, if_neg (by decide), if_pos (by decide), hread]
  | int i htag hread _ hmost =>
    subst htag
    rw [scalarValue, if_neg (by decide), if_pos (by decide), hread]
    exact if_pos hmost
  | float x htag hread =>
    subst htag
    rw [scalarValue, if_neg (by decide), if_pos (by decide), hread]
  | text htag =>
    rw [List.mem_cons, not_or] at htag
    rw [scalarValue, if_neg htag.1, if_neg (mt List.contains_iff_mem.mp htag.2)]

theorem denotes_of_scalarValue (line : Nat) (tag text : String) (v : Value)
    (h : scalarValue line tag text = .ok v) : ScalarDenotes tag text v := by
  rw [scalarValue] at h
  split at h
  · next hnull =>
    cases h
    exact .null hnull
  · next hnull =>
    split at h
    · next hlisted =>
      have hlisted := List.contains_iff_mem.mp hlisted
      have htag := fun s => Scalar.tag_of_resolve tag text s (List.mem_cons_of_mem _ hlisted)
      split at h
      · next b hread =>
        cases h
        exact .bool b (htag _ hread).symm hread
      · next x hread =>
        cases h
        exact .float x (htag _ hread).symm hread
      · next i hread =>
        split at h
        · next hmost =>
          cases h
          exact .int i (htag _ hread).symm hread (Scalar.resolve_least _ _ _ hread) hmost
        · cases h
      · next s hbool hfloat hint hread =>
        -- a value of another type has another tag
        have hs := htag s hread
        rw [← hs] at hlisted
        cases s with
        | bool b => exact absurd rfl (hbool b)
        | int i => exact absurd rfl (hint i)
        | float x => exact absurd rfl (hfloat x)
        | null => exact absurd hlisted (show Yaml.Tag.null ∉ _ by decide)
        | text t => exact absurd hlisted (show Yaml.Tag.str ∉ _ by decide)
        | time t => exact absurd hlisted (show Yaml.Tag.timestamp ∉ _ by decide)
      · cases h
    · next hlisted =>
      cases h
      refine .text ?_
      rw [List.mem_cons, not_or]
      exact ⟨hnull, mt List.contains_iff_mem.mpr hlisted⟩

theorem scalarValue_eq_ok (line : Nat) (tag text : String) (v : Value) :
    scalarValue line tag text = .ok v ↔ ScalarDenotes tag text v :=
  ⟨denotes_of_scalarValue line tag text v, scalarValue_of_denotes line⟩

/-! ### Sequences and mappings -/

theorem map_eq_ok {α β : Type} (x : Except ValueError α) (f : α → β) (b : β) :
    x.map f = .ok b ↔ ∃ a, x = .ok a ∧ f a = b := by
  cases x with
  | error e => simp [Except.map]
  | ok a => simp [Except.map]

theorem valuesOf_eq_ok (items : List Yaml.Node) (vs : List Value) :
    valuesOf items = .ok vs ↔ List.Forall₂ (fun n v => valueOf n = .ok v) items vs := by
  induction items generalizing vs with
  | nil =>
    rw [valuesOf, List.forall₂_nil_left_iff]
    simp [eq_comm]
  | cons n rest ih =>
    rw [valuesOf, List.forall₂_cons_left_iff]
    simp only [← ih]
    cases hn : valueOf n with
    | error e => simp [Bind.bind, Except.bind]
    | ok v =>
      cases hrest : valuesOf rest with
      | error e => simp [Bind.bind, Except.bind]
      | ok ws => simp [Bind.bind, Except.bind, Pure.pure, Except.pure, eq_comm]

theorem taggedText_eq_ok (key : String) (n : Yaml.Node) (text : String) :
    taggedText key n = .ok text ↔ ∃ line tag, n = .scalar line tag text ∧ tag ≠ Yaml.Tag.null := by
  cases n with
  | scalar line tag t =>
    rw [taggedText]
    split
    · next hnull => simp [hnull]
    · next hnull => simp [hnull]
  | _ => simp [taggedText]

theorem itemsUnder_eq_ok (key : String) {n : Yaml.Node} (h : n.WrittenOut) (vs : List Value) :
    itemsUnder key n = .ok vs ↔ ∃ line tag items, n = .sequence line tag items ∧
      valuesOf items = .ok vs := by
  cases h with
  | sequence line tag items => simp [itemsUnder]
  | _ => simp [itemsUnder]

/-- What the one key of a mapping makes of its value. -/
theorem valueOf_keyed (line : Nat) (tag : String) (k n : Yaml.Node) (v : Value) :
    valueOf (.mapping line tag [(k, n)]) = .ok v ↔
      (∃ make text, (k.keyText, make) ∈ textKeys ∧ taggedText k.keyText n.resolved = .ok text ∧
        make text = v) ∨
      (∃ make vs, (k.keyText, make) ∈ itemKeys ∧ itemsUnder k.keyText n = .ok vs ∧ make vs = v) := by
  rw [valueOf]
  generalize k.keyText = key
  by_cases hlisted : key ∈ ["tensor", "expr", "str", "tuple", "list"]
  · simp only [List.mem_cons, List.not_mem_nil, or_false] at hlisted
    rcases hlisted with rfl | rfl | rfl | rfl | rfl <;> simp [textKeys, itemKeys, map_eq_ok]
  · simp only [List.mem_cons, List.not_mem_nil, or_false, not_or] at hlisted
    simp [hlisted, textKeys, itemKeys]

theorem valuesOf_iff_of_items {items : List Yaml.Node}
    (h : ∀ n ∈ items, ∀ v, valueOf n = .ok v ↔ Denotes n v) (vs : List Value) :
    valuesOf items = .ok vs ↔ List.Forall₂ Denotes items vs := by
  rw [valuesOf_eq_ok]
  induction items generalizing vs with
  | nil => rw [List.forall₂_nil_left_iff, List.forall₂_nil_left_iff]
  | cons n rest ih =>
    rw [List.forall_mem_cons] at h
    simp only [List.forall₂_cons_left_iff, h.1, ih h.2]

theorem resolved_of_writtenOut {n : Yaml.Node} (h : n.WrittenOut) : n.resolved = n := by
  cases h <;> rfl

theorem key_of_writtenOut {k : Yaml.Node} (h : k.WrittenOut) (hkey : k.keyText ≠ "") :
    ∃ line tag, k = .scalar line tag k.keyText := by
  cases h with
  | scalar line tag text => exact ⟨line, tag, rfl⟩
  | _ => exact absurd rfl hkey

theorem valuesOf_iff_of_sequence {line : Nat} {tag : String} {items : List Yaml.Node}
    (h : ∀ v, valueOf (.sequence line tag items) = .ok v ↔ Denotes (.sequence line tag items) v)
    (vs : List Value) : valuesOf items = .ok vs ↔ List.Forall₂ Denotes items vs := by
  have hlist := h (.list vs)
  rw [valueOf, map_eq_ok] at hlist
  constructor
  · intro hvs
    cases hlist.mp ⟨vs, hvs, rfl⟩ with
    | sequence hall => exact hall
  · intro hall
    obtain ⟨ws, hws, heq⟩ := hlist.mpr (.sequence hall)
    cases heq
    exact hws

theorem entry_eq_ok (line : Nat) (tag : String) {k n : Yaml.Node} (hk : k.WrittenOut)
    (hn : n.WrittenOut) (h : ∀ v, valueOf n = .ok v ↔ Denotes n v) (v : Value) :
    valueOf (.mapping line tag [(k, n)]) = .ok v ↔ Denotes (.mapping line tag [(k, n)]) v := by
  have htextKeys : ∀ p ∈ textKeys, p.1 ≠ "" := by decide
  have hitemKeys : ∀ p ∈ itemKeys, p.1 ≠ "" := by decide
  rw [valueOf_keyed, resolved_of_writtenOut hn]
  constructor
  · rintro (⟨make, text, hkey, htext, rfl⟩ | ⟨make, vs, hkey, hvs, rfl⟩)
    · obtain ⟨keyLine, keyTag, hscalar⟩ := key_of_writtenOut hk (htextKeys _ hkey)
      obtain ⟨textLine, textTag, rfl, htag⟩ := (taggedText_eq_ok _ _ _).mp htext
      rw [hscalar]
      exact .text hkey htag
    · obtain ⟨keyLine, keyTag, hscalar⟩ := key_of_writtenOut hk (hitemKeys _ hkey)
      obtain ⟨itemsLine, itemsTag, items, rfl, hitems⟩ := (itemsUnder_eq_ok _ hn _).mp hvs
      rw [hscalar]
      exact .items hkey ((valuesOf_iff_of_sequence h vs).mp hitems)
  · intro hv
    cases hv with
    | text hkey htag =>
      exact .inl ⟨_, _, hkey, (taggedText_eq_ok _ _ _).mpr ⟨_, _, rfl, htag⟩, rfl⟩
    | items hkey hall =>
      have hitems := (valuesOf_iff_of_sequence h _).mpr hall
      exact .inr ⟨_, _, hkey, (itemsUnder_eq_ok _ hn _).mpr ⟨_, _, _, rfl, hitems⟩, rfl⟩

/-- A node without aliases has exactly the value that it denotes. -/
theorem valueOf_eq_ok {n : Yaml.Node} (h : n.WrittenOut) :
    ∀ v, valueOf n = .ok v ↔ Denotes n v := by
  induction h with
  | scalar line tag text =>
    intro v
    rw [valueOf, scalarValue_eq_ok]
    exact ⟨.scalar, fun | .scalar h => h⟩
  | sequence line tag items _ ih =>
    intro v
    rw [valueOf, map_eq_ok]
    simp only [valuesOf_iff_of_items ih]
    constructor
    · rintro ⟨vs, hvs, rfl⟩
      exact .sequence hvs
    · intro hv
      cases hv with
      | sequence hvs => exact ⟨_, hvs, rfl⟩
  | mapping line tag entries hkeys hvalues _ ih =>
    intro v
    rcases entries with - | ⟨⟨k, n⟩, - | ⟨e, rest⟩⟩
    · exact ⟨fun h => (nomatch h), fun h => (nomatch h)⟩
    · have hmem : (k, n) ∈ [(k, n)] := List.mem_singleton_self _
      exact entry_eq_ok line tag (hkeys _ hmem) (hvalues _ hmem) (ih _ hmem) v
    · exact ⟨fun h => (nomatch h), fun h => (nomatch h)⟩

/-! ### Accepted nodes -/

theorem exists_forall₂_iff {α β : Type} (R : α → β → Prop) (as : List α) :
    (∃ bs, List.Forall₂ R as bs) ↔ ∀ a ∈ as, ∃ b, R a b := by
  induction as with
  | nil => simp
  | cons a as ih =>
    rw [List.forall_mem_cons, ← ih]
    constructor
    · rintro ⟨bs, h⟩
      cases h with
      | cons h hs => exact ⟨⟨_, h⟩, ⟨_, hs⟩⟩
    · rintro ⟨⟨b, h⟩, ⟨bs, hs⟩⟩
      exact ⟨b :: bs, .cons h hs⟩

theorem IsValue.denotes {n : Yaml.Node} (h : IsValue n) : ∃ v, Denotes n v := by
  induction h with
  | scalar h => exact ⟨_, .scalar h⟩
  | sequence _ ih =>
    obtain ⟨vs, hvs⟩ := (exists_forall₂_iff _ _).mpr ih
    exact ⟨_, .sequence hvs⟩
  | text hkey htag =>
    have hmake : ∀ key ∈ ["tensor", "expr", "str"], ∃ make, (key, make) ∈ textKeys := by
      simp [textKeys]
    obtain ⟨make, hmake⟩ := hmake _ hkey
    exact ⟨_, .text hmake htag⟩
  | items hkey _ ih =>
    have hmake : ∀ key ∈ ["tuple", "list"], ∃ make, (key, make) ∈ itemKeys := by
      simp [itemKeys]
    obtain ⟨make, hmake⟩ := hmake _ hkey
    obtain ⟨vs, hvs⟩ := (exists_forall₂_iff _ _).mpr ih
    exact ⟨_, .items hmake hvs⟩

theorem Denotes.isValue {n : Yaml.Node} (hn : n.WrittenOut) : ∀ v, Denotes n v → IsValue n := by
  induction hn with
  | scalar line tag text =>
    intro v hv
    cases hv with
    | scalar h => exact .scalar h
  | sequence line tag items _ ih =>
    intro v hv
    cases hv with
    | sequence hall =>
      refine .sequence fun m hm => ?_
      obtain ⟨w, hw⟩ := (exists_forall₂_iff _ _).mp ⟨_, hall⟩ m hm
      exact ih m hm w hw
  | mapping line tag entries _ _ _ ih =>
    intro v hv
    cases hv with
    | text hkey htag => exact .text (List.mem_map_of_mem (f := Prod.fst) hkey) htag
    | items hkey hall =>
      cases ih _ (List.mem_singleton_self _) _ (.sequence hall) with
      | sequence hitems => exact .items (List.mem_map_of_mem (f := Prod.fst) hkey) hitems

theorem exists_value_iff {n : Yaml.Node} (h : n.WrittenOut) :
    (∃ v, valueOf n = .ok v) ↔ IsValue n := by
  simp only [valueOf_eq_ok h]
  exact ⟨fun ⟨v, hv⟩ => hv.isValue h, IsValue.denotes⟩

/-! ### Scalars without a tag -/

/-- The value of a plain scalar without a tag by what it spells; an integer beyond 64 bits has none. -/
def spelled? (text : String) : Scalar → Option Value
  | .null => some .none
  | .bool b => some (.bool b)
  | .int i => if i < Scalar.signedEnd then some (.int i) else none
  | .float x => some (.float x)
  | .text _ => some (.str text)
  | .time _ => some (.str text)

theorem scalarDenotes_spelled (text : String) (v : Value)
    (h : spelled? text (Scalar.ofSpelling true text) = some v) :
    ScalarDenotes (Scalar.ofSpelling true text).tag text v := by
  have hread := Scalar.resolve_tag text
  generalize Scalar.ofSpelling true text = s at *
  cases s with
  | null =>
    cases h
    exact .null rfl
  | bool b =>
    cases h
    exact .bool b rfl (hread (show Yaml.Tag.bool ∈ _ by decide))
  | int i =>
    rw [spelled?] at h
    split at h
    · next hmost =>
      cases h
      have hread := hread (show Yaml.Tag.int ∈ _ by decide)
      exact .int i rfl hread (Scalar.resolve_least _ _ _ hread) hmost
    · cases h
  | float x =>
    cases h
    exact .float x rfl (hread (show Yaml.Tag.float ∈ _ by decide))
  | text t =>
    cases h
    exact .text (show Yaml.Tag.str ∉ _ by decide)
  | time t =>
    cases h
    exact .text (show Yaml.Tag.timestamp ∉ _ by decide)

theorem spelled_of_scalarDenotes (text : String) (v : Value)
    (h : ScalarDenotes (Scalar.ofSpelling true text).tag text v) :
    spelled? text (Scalar.ofSpelling true text) = some v := by
  have hread := Scalar.resolve_tag text
  generalize Scalar.ofSpelling true text = s at *
  cases h with
  | null htag =>
    cases s with
    | null => rfl
    | _ => exact absurd htag (by dsimp only [Scalar.tag]; decide)
  | bool b htag h =>
    rw [h] at hread
    cases hread (by rw [htag]; decide)
    rfl
  | int i htag h _ hmost =>
    rw [h] at hread
    cases hread (by rw [htag]; decide)
    exact if_pos hmost
  | float x htag h =>
    rw [h] at hread
    cases hread (by rw [htag]; decide)
    rfl
  | text htag =>
    cases s with
    | text t => rfl
    | time t => rfl
    | _ => exact absurd (by dsimp only [Scalar.tag]; decide) htag

theorem valueOf_plain (line : Nat) (text : String) (v : Value) :
    valueOf (.ofScalar line "" true text) = .ok v ↔
      spelled? text (Scalar.ofSpelling true text) = some v := by
  by_cases hmerge : text = "<<"
  · subst hmerge
    have hvalue : valueOf (.ofScalar line "" true "<<") = .ok (.str "<<") := rfl
    have hspelled : spelled? "<<" (Scalar.ofSpelling true "<<") = some (.str "<<") := rfl
    rw [hvalue, hspelled]
    simp
  · have hnode : Yaml.Node.ofScalar line "" true text =
        .scalar line (Scalar.ofSpelling true text).tag text := by
      simp [Yaml.Node.ofScalar, hmerge]
    rw [hnode, valueOf, scalarValue_eq_ok]
    exact ⟨spelled_of_scalarDenotes text v, scalarDenotes_spelled text v⟩

end Document

end Netscribe
