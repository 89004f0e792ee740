import Mathlib.Data.List.Basic
import Netscribe.Yaml.Data

/-!
# Documents without aliases

`Node.expanded` puts a copy of the node that an alias stands for in place of the alias, everywhere in
a document. Where aliases stand for values only, the expanded document has the same keys, tags and
lines, so the entries of its mappings are told apart in the same way.
-/

namespace Netscribe.Yaml.Node

mutual

/-- The node with a copy of what it stands for in place of each alias. -/
def expanded : Node → Node
  | scalar line tag text => scalar line tag text
  | sequence line tag items => sequence line tag (expandedItems items)
  | mapping line tag entries => mapping line tag (expandedEntries entries)
  | aliasOf _ _ target => expanded target
  | cycle line name anchor number => cycle line name anchor number

def expandedItems : List Node → List Node
  | [] => []
  | n :: rest => expanded n :: expandedItems rest

def expandedEntries : List (Node × Node) → List (Node × Node)
  | [] => []
  | (k, v) :: rest => (expanded k, expanded v) :: expandedEntries rest

end

def isAlias : Node → Bool
  | aliasOf _ _ _ => true
  | _ => false

mutual

/-- There is no alias in the node. -/
def aliasFree : Node → Bool
  | scalar _ _ _ => true
  | sequence _ _ items => aliasFreeItems items
  | mapping _ _ entries => aliasFreeEntries entries
  | aliasOf _ _ _ => false
  | cycle _ _ _ _ => true

def aliasFreeItems : List Node → Bool
  | [] => true
  | n :: rest => aliasFree n && aliasFreeItems rest

def aliasFreeEntries : List (Node × Node) → Bool
  | [] => true
  | (k, v) :: rest => aliasFree k && aliasFree v && aliasFreeEntries rest

end

mutual

/-- Only values are aliases: no key is one, and no alias stands for another alias. -/
def aliasesValues : Node → Bool
  | scalar _ _ _ => true
  | sequence _ _ items => aliasesValuesItems items
  | mapping _ _ entries => aliasesValuesEntries entries
  | aliasOf _ _ target => !target.isAlias && aliasesValues target
  | cycle _ _ _ _ => true

def aliasesValuesItems : List Node → Bool
  | [] => true
  | n :: rest => aliasesValues n && aliasesValuesItems rest

def aliasesValuesEntries : List (Node × Node) → Bool
  | [] => true
  | (k, v) :: rest => !k.isAlias && aliasesValues k && aliasesValues v && aliasesValuesEntries rest

end

theorem expandedEntries_eq_map (entries : List (Node × Node)) :
    expandedEntries entries = entries.map fun e => (e.1.expanded, e.2.expanded) := by
  induction entries with
  | nil => rfl
  | cons e rest ih => rw [expandedEntries, ih, List.map_cons]

mutual

theorem aliasFree_expanded : ∀ n : Node, n.expanded.aliasFree = true
  | scalar _ _ _ => rfl
  | sequence _ _ items => by
    rw [expanded, aliasFree]
    exact aliasFree_expandedItems items
  | mapping _ _ entries => by
    rw [expanded, aliasFree]
    exact aliasFree_expandedEntries entries
  | aliasOf _ _ target => by
    rw [expanded]
    exact aliasFree_expanded target
  | cycle _ _ _ _ => rfl

theorem aliasFree_expandedItems : ∀ items : List Node, aliasFreeItems (expandedItems items) = true
  | [] => rfl
  | n :: rest => by
    rw [expandedItems, aliasFreeItems, aliasFree_expanded n, aliasFree_expandedItems rest]
    rfl

theorem aliasFree_expandedEntries :
    ∀ entries : List (Node × Node), aliasFreeEntries (expandedEntries entries) = true
  | [] => rfl
  | (k, v) :: rest => by
    rw [expandedEntries, aliasFreeEntries, aliasFree_expanded k, aliasFree_expanded v,
      aliasFree_expandedEntries rest]
    rfl

end

/-! ### Parts of a node -/

/-- What holds of a node holds of its parts, and neither keys nor what aliases stand for are
aliases. -/
structure Hereditary (P : Node → Prop) : Prop where
  item : ∀ line tag items, P (.sequence line tag items) → ∀ n ∈ items, P n
  entry : ∀ line tag entries, P (.mapping line tag entries) → ∀ e ∈ entries,
    e.1.isAlias = false ∧ P e.1 ∧ P e.2
  target : ∀ line name target, P (.aliasOf line name target) → P target ∧ target.isAlias = false

theorem aliasesValuesItems_iff (items : List Node) :
    aliasesValuesItems items = true ↔ ∀ n ∈ items, n.aliasesValues = true := by
  induction items with
  | nil => simp [aliasesValuesItems]
  | cons n rest ih => rw [aliasesValuesItems, Bool.and_eq_true, ih, List.forall_mem_cons]

theorem aliasesValuesEntries_iff (entries : List (Node × Node)) :
    aliasesValuesEntries entries = true ↔
      ∀ e ∈ entries, e.1.isAlias = false ∧ e.1.aliasesValues = true ∧ e.2.aliasesValues = true := by
  induction entries with
  | nil => simp [aliasesValuesEntries]
  | cons e rest ih =>
    simp only [aliasesValuesEntries, Bool.and_eq_true, ih, List.forall_mem_cons, Bool.not_eq_true',
      and_assoc]

theorem hereditary_aliasesValues : Hereditary fun n => n.aliasesValues = true where
  item line tag items h := (aliasesValuesItems_iff items).mp h
  entry line tag entries h := (aliasesValuesEntries_iff entries).mp h
  target line name target h := by
    rw [aliasesValues, Bool.and_eq_true, Bool.not_eq_true'] at h
    exact ⟨h.2, h.1⟩

theorem item_below (line : Nat) (tag : String) (items : List Node)
    (h : (sequence line tag items).aliasesValues = true) :
    ∀ n ∈ items, n.aliasesValues = true ∧ sizeOf n < sizeOf (sequence line tag items) := by
  intro n hn
  have hsize := List.sizeOf_lt_of_mem hn
  rw [sequence.sizeOf_spec]
  exact ⟨hereditary_aliasesValues.item line tag items h n hn, by omega⟩

theorem entry_below (line : Nat) (tag : String) (entries : List (Node × Node))
    (h : (mapping line tag entries).aliasesValues = true) :
    ∀ e ∈ entries, e.1.isAlias = false ∧
      (e.1.aliasesValues = true ∧ sizeOf e.1 < sizeOf (mapping line tag entries)) ∧
      (e.2.aliasesValues = true ∧ sizeOf e.2 < sizeOf (mapping line tag entries)) := by
  intro e he
  have hsize := List.sizeOf_lt_of_mem he
  have hpair : sizeOf e = 1 + sizeOf e.1 + sizeOf e.2 := rfl
  obtain ⟨halias, hkey, hvalue⟩ := hereditary_aliasesValues.entry line tag entries h e he
  rw [mapping.sizeOf_spec]
  exact ⟨halias, ⟨hkey, by omega⟩, hvalue, by omega⟩

theorem target_below (line : Nat) (name : String) (target : Node)
    (h : (aliasOf line name target).aliasesValues = true) :
    (target.aliasesValues = true ∧ sizeOf target < sizeOf (aliasOf line name target)) ∧
      target.isAlias = false := by
  obtain ⟨htarget, halias⟩ := hereditary_aliasesValues.target line name target h
  rw [aliasOf.sizeOf_spec]
  exact ⟨⟨htarget, by omega⟩, halias⟩

/-- The property of nodes below a size goes down to their parts. -/
theorem hereditary_below (bound : Nat) :
    Hereditary fun n => n.aliasesValues = true ∧ sizeOf n < bound where
  item line tag items h n hn := by
    obtain ⟨hitem, hsize⟩ := item_below line tag items h.1 n hn
    exact ⟨hitem, by omega⟩
  entry line tag entries h e he := by
    obtain ⟨halias, ⟨hkey, hksize⟩, hvalue, hvsize⟩ := entry_below line tag entries h.1 e he
    exact ⟨halias, ⟨hkey, by omega⟩, hvalue, by omega⟩
  target line name target h := by
    obtain ⟨⟨htarget, hsize⟩, halias⟩ := target_below line name target h.1
    exact ⟨⟨htarget, by omega⟩, halias⟩

/-! ### Keys and tags -/

theorem tag_expanded : ∀ n : Node, n.expanded.tag = n.tag
  | scalar _ _ _ => rfl
  | sequence _ _ _ => rfl
  | mapping _ _ _ => rfl
  | aliasOf _ _ target => tag_expanded target
  | cycle _ _ _ _ => rfl

theorem isTextKey_expanded (entries : List (Node × Node)) :
    (expandedEntries entries).all (fun e => e.1.isTextKey) = entries.all fun e => e.1.isTextKey := by
  rw [expandedEntries_eq_map, List.all_map]
  congr 1
  funext e
  simp only [Function.comp, isTextKey, tag_expanded]

section

variable (n : Node) (h : n.isAlias = false)

include h

theorem line_expanded : n.expanded.line = n.line := by
  cases n with
  | aliasOf => cases h
  | _ => rfl

theorem keyText_expanded : n.expanded.keyText = n.keyText := by
  cases n with
  | aliasOf => cases h
  | _ => rfl

theorem isMergeKey_expanded : n.expanded.isMergeKey = n.isMergeKey := by
  cases n with
  | aliasOf => cases h
  | _ => rfl

theorem mismatch_expanded (target : String) : n.expanded.mismatch target = n.mismatch target := by
  cases n with
  | aliasOf => cases h
  | _ => rfl

theorem sameKind_expanded (m : Node) (hm : m.isAlias = false) :
    n.expanded.sameKind m.expanded = n.sameKind m := by
  cases n with
  | aliasOf => cases h
  | _ =>
    cases m with
    | aliasOf => cases hm
    | _ => rfl

end

section

variable (entries : List (Node × Node)) (h : ∀ e ∈ entries, e.1.isAlias = false)

include h

theorem hasMergeKey_expanded : hasMergeKey (expandedEntries entries) = hasMergeKey entries := by
  induction entries with
  | nil => rfl
  | cons e rest ih =>
    obtain ⟨he, hrest⟩ := List.forall_mem_cons.mp h
    have hmerge := ih hrest
    unfold hasMergeKey at hmerge ⊢
    rw [expandedEntries, List.any_cons, List.any_cons, hmerge, isMergeKey_expanded e.1 he]

theorem duplicates_expanded : duplicates (expandedEntries entries) = duplicates entries := by
  induction entries with
  | nil => rfl
  | cons e rest ih =>
    obtain ⟨he, hrest⟩ := List.forall_mem_cons.mp h
    rw [expandedEntries, duplicates, duplicates, ih hrest, expandedEntries_eq_map,
      List.filterMap_map]
    congr 1
    apply List.filterMap_congr
    intro d hd
    have hkey := hrest d hd
    simp only [Function.comp, sameKind_expanded e.1 he d.1 hkey, keyText_expanded e.1 he,
      keyText_expanded d.1 hkey, line_expanded e.1 he, line_expanded d.1 hkey]

end

end Netscribe.Yaml.Node
