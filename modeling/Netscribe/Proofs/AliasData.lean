import Netscribe.Proofs.AliasDecoding

/-!
# Data with and without aliases

The value of a mapping is read entry by entry in the same way as a record, so the value of a document
is the value of the expanded document.
-/

namespace Netscribe.Yaml

open Decoding (Mirrors)

namespace Node

def dataEntry (texts : Bool) : EntryStep (List (Scalar × Data)) := fun behind taken es k v => do
  match ← dataKey texts behind k with
  | none => return (taken, es)
  | some key =>
    match taken.take key with
    | none => return (taken, es)
    | some taken =>
      match ← data behind v with
      | some d => return (taken, Data.put es key d)
      | none => return (taken, es)

theorem dataOwn_eq_walkOwn (texts behind : Bool) (entries : List (Node × Node)) (taken : Taken)
    (es : List (Scalar × Data)) :
    dataOwn texts behind taken es entries = walkOwn (dataEntry texts) behind taken es entries := by
  induction entries generalizing taken es with
  | nil => rfl
  | cons e rest ih =>
    rw [dataOwn, walkOwn]
    split
    · exact ih taken es
    · simp only [dataEntry, bind_assoc]
      congr 1
      funext key?
      cases key? with
      | none => simp only [pure_bind, ih]
      | some key =>
        dsimp only
        cases taken.take key with
        | none => simp only [pure_bind, ih]
        | some taken' =>
          simp only [bind_assoc]
          congr 1
          funext d?
          cases d? with
          | none => simp only [pure_bind, ih]
          | some d => simp only [pure_bind, ih]

mutual

theorem dataMerge_eq_walkMerge (texts behind : Bool) (all entries : List (Node × Node))
    (taken : Taken) (es : List (Scalar × Data)) :
    dataMerge texts behind all taken es entries =
      walkMerge (dataEntry texts) behind all taken es entries := by
  match entries with
  | [] => rfl
  | (k, .sequence line tag items) :: rest =>
    have hitems := fun keys es => dataSources_eq_walkSources texts behind items keys es
    rw [dataMerge, walkMerge, dataMerge_eq_walkMerge texts behind all rest taken es]
    simp only [hitems]
  | (k, .mapping line tag entries') :: rest =>
    have hsource := fun keys es =>
      dataSource_eq_walkSource texts behind (.mapping line tag entries') keys es
    rw [dataMerge, walkMerge, dataMerge_eq_walkMerge texts behind all rest taken es]
    simp only [hsource]
  | (k, .aliasOf line name target) :: rest =>
    have hsource := fun keys es =>
      dataSource_eq_walkSource texts behind (.aliasOf line name target) keys es
    rw [dataMerge, walkMerge, dataMerge_eq_walkMerge texts behind all rest taken es]
    simp only [hsource]
  | (k, .scalar _ _ _) :: rest =>
    rw [dataMerge, walkMerge, dataMerge_eq_walkMerge texts behind all rest taken es]
    rfl
  | (k, .cycle _ _ _ _) :: rest =>
    rw [dataMerge, walkMerge, dataMerge_eq_walkMerge texts behind all rest taken es]
    rfl
termination_by sizeOf entries

theorem dataSource_eq_walkSource (texts behind : Bool) (n : Node) (keys : List Scalar)
    (es : List (Scalar × Data)) :
    dataSource texts behind keys es n = walkSource (dataEntry texts) behind keys es n := by
  match n with
  | .mapping line tag entries =>
    have hmerge := fun taken es => dataMerge_eq_walkMerge texts behind entries entries taken es
    rw [dataSource, walkSource]
    simp only [dataOwn_eq_walkOwn, hmerge]
  | .aliasOf line name (.mapping line' tag entries) =>
    have hmerge := fun taken es => dataMerge_eq_walkMerge texts true entries entries taken es
    rw [dataSource, walkSource]
    simp only [dataOwn_eq_walkOwn, hmerge]
  | .scalar _ _ _ => rfl
  | .sequence _ _ _ => rfl
  | .cycle _ _ _ _ => rfl
  | .aliasOf _ _ (.scalar _ _ _) => rfl
  | .aliasOf _ _ (.sequence _ _ _) => rfl
  | .aliasOf _ _ (.aliasOf _ _ _) => rfl
  | .aliasOf _ _ (.cycle _ _ _ _) => rfl
termination_by sizeOf n

theorem dataSources_eq_walkSources (texts behind : Bool) (ns : List Node) (keys : List Scalar)
    (es : List (Scalar × Data)) :
    dataSources texts behind keys es ns = walkSources (dataEntry texts) behind keys es ns := by
  match ns with
  | [] => rfl
  | n :: rest =>
    have hrest := fun keys es => dataSources_eq_walkSources texts behind rest keys es
    rw [dataSources, walkSources, dataSource_eq_walkSource texts behind n keys es]
    simp only [hrest]
termination_by sizeOf ns

end

/-- The value of a mapping, by the reading of its entries. -/
theorem data_mapping (behind : Bool) (line : Nat) (tag : String) (entries : List (Node × Node)) :
    data behind (mapping line tag entries) = do
      Decoding.visit behind
      if ← reportDuplicates entries then return none
      let texts := entries.all fun e => e.1.isTextKey
      return some (.ofEntries texts (← walk (dataEntry texts) behind [] entries)) := by
  rw [data]
  simp only [walk, dataOwn_eq_walkOwn, dataMerge_eq_walkMerge, bind_assoc, pure_bind]

section

variable {P : Node → Prop} (hP : Hereditary P)

include hP

theorem dataKey_mirrors (texts behind : Bool) (k : Node) (hk : P k) :
    Mirrors Eq (dataKey texts behind k) (dataKey texts false k.expanded) := by
  unfold dataKey
  split
  · exact (asText_mirrors hP behind k hk).bind_eq fun _ => .pure rfl
  · exact keyValue_mirrors hP behind k hk

variable (hdata : ∀ behind n, P n → Mirrors Eq (data behind n) (data false n.expanded))

include hdata

theorem dataEntry_mirrors (texts : Bool) : StepMirrors P Eq (dataEntry texts) (dataEntry texts) where
  hereditary := hP
  step := by
    rintro behind taken es _ k v rfl - hk hv
    unfold dataEntry
    apply (dataKey_mirrors hP texts behind k hk).bind_eq
    intro key?
    cases key? with
    | none => exact .pure ⟨rfl, rfl⟩
    | some key =>
      dsimp only
      cases taken.take key with
      | none => exact .pure ⟨rfl, rfl⟩
      | some taken' =>
        apply (hdata behind v hv).bind_eq
        intro d?
        cases d? with
        | none => exact .pure ⟨rfl, rfl⟩
        | some d => exact .pure ⟨rfl, rfl⟩

omit hP in
theorem dataItems_mirrors (behind : Bool) (items : List Node) (h : ∀ n ∈ items, P n) :
    Mirrors Eq (dataItems behind items) (dataItems false (expandedItems items)) := by
  induction items with
  | nil => exact .pure rfl
  | cons n rest ih =>
    obtain ⟨hn, hrest⟩ := List.forall_mem_cons.mp h
    rw [expandedItems, dataItems, dataItems]
    apply (hdata behind n hn).bind_eq
    intro v
    exact (ih hrest).bind_eq fun _ => .pure rfl

end

theorem data_mirrors (behind : Bool) (n : Node) (h : n.aliasesValues = true) :
    Mirrors Eq (data behind n) (data false n.expanded) := by
  -- merging reads entries at any depth of a value, so the induction is on the size of the node
  have hdata : ∀ behind m, m.aliasesValues = true ∧ sizeOf m < sizeOf n →
      Mirrors Eq (data behind m) (data false m.expanded) :=
    fun behind m hm => data_mirrors behind m hm.1
  have hbelow := hereditary_below (sizeOf n)
  cases n with
  | scalar line tag text =>
    rw [expanded, data, data]
    apply (Mirrors.visit behind).bind_eq
    intro _
    exact (Mirrors.lift _).bind_eq fun _ => .pure rfl
  | sequence line tag items =>
    rw [expanded, data, data]
    apply (Mirrors.visit behind).bind_eq
    intro _
    exact (dataItems_mirrors hdata behind items (item_below line tag items h)).bind_eq
      fun _ => .pure rfl
  | mapping line tag entries =>
    have hentries := entry_below line tag entries h
    rw [expanded, data_mapping, data_mapping, isTextKey_expanded]
    apply (Mirrors.visit behind).bind_eq
    intro _
    apply (reportDuplicates_mirrors entries fun e he => (hentries e he).1).bind_eq
    intro repeated
    split
    · exact .pure rfl
    · exact (walk_mirrors (dataEntry_mirrors hbelow hdata _) behind [] [] rfl entries
        hentries).bind_eq fun _ => .pure rfl
  | aliasOf line name target =>
    rw [expanded, data]
    exact .visit_alias behind (hdata true target (target_below line name target h).1)
  | cycle line name anchor number =>
    rw [expanded, data, data]
    exact (Mirrors.visit behind).bind_eq fun _ => .throw _
termination_by sizeOf n
decreasing_by exact hm.2

end Node

end Netscribe.Yaml
