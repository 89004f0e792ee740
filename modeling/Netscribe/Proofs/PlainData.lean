import Mathlib.Data.List.Nodup
import Netscribe.Proofs.CleanDecoding
import Netscribe.Proofs.Schema

/-!
# The data of plain nodes

What the value of a node says about the node, where there are no aliases and no merge keys: a list comes
from a sequence, item by item, and an object from a mapping with the same keys in the same order. So a
value that the schema accepts tells what the node looks like (`Accepted`).
-/

namespace Netscribe.Yaml

open Decoding (Ensures)

namespace Node

inductive HasData : Node → Data → Prop
  | scalar (n : Node) (v : Scalar) (h : n.scalar? = some v) : HasData n (.scalar v)
  | list (line : Nat) (tag : String) (items : List Node) (ds : List Data)
    (h : List.Forall₂ HasData items ds) : HasData (.sequence line tag items) (.list ds)
  | object (line : Nat) (tag : String) (entries : List (Node × Node)) (es : List (String × Data))
    (hkeyed : Keyed entries) (hkeys : es.map (·.1) = entries.map (·.1.keyText))
    (hvalues : List.Forall₂ HasData (entries.map (·.2)) (es.map (·.2))) :
    HasData (.mapping line tag entries) (.object es)
  | table (n : Node) (es : List (Scalar × Data)) : HasData n (.table es)

/-! ### Keys -/

theorem text?_of_isTextKey (n : Node) (htext : n.isTextKey = true) (hscalar : n.scalar? ≠ none) :
    n.text? = some n.keyText := by
  cases n with
  | scalar line tag text =>
    have htag : tag = Tag.str ∨ tag = Tag.merge := by
      simpa [isTextKey, Node.tag] using htext
    have hresolve : Scalar.resolve tag text = .ok (.text text) := by
      rcases htag with rfl | rfl
      · rfl
      · rfl
    simp only [text?, scalar?_scalar line tag text _ hresolve]
    rfl
  | _ => exact absurd rfl hscalar

theorem sameKind_of_text? (n m : Node) (a b : String) (hn : n.text? = some a)
    (hm : m.text? = some b) : n.sameKind m = true := by
  cases n with
  | scalar =>
    cases m with
    | scalar => rfl
    | _ => cases hm
  | _ => cases hn

theorem nodup_of_duplicates (entries : List (Node × Node)) (h : duplicates entries = [])
    (htexts : ∀ e ∈ entries, e.1.text? = some e.1.keyText) :
    (entries.map (·.1.keyText)).Nodup := by
  induction entries with
  | nil => simp
  | cons e rest ih =>
    obtain ⟨he, hrest⟩ := List.forall_mem_cons.mp htexts
    rw [duplicates, List.append_eq_nil_iff, List.filterMap_eq_nil_iff] at h
    rw [List.map_cons, List.nodup_cons]
    refine ⟨?_, ih h.2 hrest⟩
    intro hmem
    obtain ⟨d, hd, hsame⟩ := List.mem_map.mp hmem
    have hkind : e.1.sameKind d.1 = true := sameKind_of_text? e.1 d.1 _ _ he (hrest d hd)
    have hnot := h.1 d hd
    simp [hkind, hsame] at hnot

/-! ### Values -/

theorem keyValue_ensures (behind : Bool) (n : Node) (hn : n.isAlias = false) :
    Ensures (n.keyValue behind) fun _ => True := by
  unfold keyValue
  apply follow_ensures _ behind n hn
  cases n with
  | scalar line tag text => exact (Ensures.lift _).bind fun _ => .pure fun _ => trivial
  | mapping line tag entries =>
    apply (reportDuplicates_ensures entries).bind
    intro repeated
    split
    · exact .pure fun _ => trivial
    · exact .throw _
  | aliasOf => cases hn
  | _ => exact .throw _

theorem dataKey_ensures (texts behind : Bool) (k : Node) (hk : k.isAlias = false)
    (htexts : texts = true → k.isTextKey = true) :
    Ensures (dataKey texts behind k) fun r => texts = true →
      k.text? = some k.keyText ∧ r = some (.text k.keyText) := by
  unfold dataKey
  split
  · next h =>
    apply (asText_ensures behind k hk).bind
    intro r
    apply Ensures.pure
    rintro ⟨hscalar, rfl⟩ -
    have htext := text?_of_isTextKey k (htexts h) hscalar
    exact ⟨htext, by rw [htext]; rfl⟩
  · next h => exact (keyValue_ensures behind k hk).mono fun _ _ htrue => absurd htrue h

section

variable (texts behind : Bool)

theorem dataEntry_ensures (e : Node × Node) (hk : e.1.isAlias = false)
    (htexts : texts = true → e.1.isTextKey = true)
    (hdata : Ensures (data behind e.2) fun r => ∃ d, r = some d ∧ HasData e.2 d)
    (taken : Taken) (es : List (Scalar × Data)) :
    Ensures (dataEntry texts behind taken es e.1 e.2) fun p => texts = true → taken = none →
      p.1 = none ∧ e.1.text? = some e.1.keyText ∧
        ∃ d, HasData e.2 d ∧ p.2 = Data.put es (.text e.1.keyText) d := by
  unfold dataEntry
  apply (dataKey_ensures texts behind e.1 hk htexts).bind
  intro key?
  cases key? with
  | none =>
    apply Ensures.pure
    intro hkey htrue
    cases (hkey htrue).2
  | some key =>
    dsimp only
    cases htake : taken.take key with
    | none =>
      apply Ensures.pure
      rintro - - rfl
      cases htake
    | some taken' =>
      apply hdata.bind
      intro d?
      cases d? with
      | none => exact .pure fun ⟨_, hd, _⟩ => by cases hd
      | some d =>
        apply Ensures.pure
        rintro ⟨_, hd, hvalue⟩ hkey htrue rfl
        cases hd
        obtain ⟨htext, hsame⟩ := hkey htrue
        cases hsame
        exact ⟨(Option.some.inj htake).symm, htext, d, hvalue, rfl⟩

theorem put_fresh (es : List (Scalar × Data)) (s : String) (d : Data)
    (h : .text s ∉ es.map (·.1)) : Data.put es (.text s) d = es ++ [(.text s, d)] := by
  have hnone : es.any (fun a => Taken.sameKey (.text s) a.1) = false := by
    rw [List.any_eq_false]
    intro a ha hsame
    have hkey : Scalar.text s = a.1 := beq_iff_eq.mp hsame
    exact h (hkey ▸ List.mem_map_of_mem ha)
  rw [Data.put, hnone]
  rfl

def entryKey (e : Node × Node) : Scalar := .text e.1.keyText

/-- Distinct keys are never put in place of each other, so the values stand in the order of the
entries. -/
theorem walkOwn_dataEntry_ensures (entries : List (Node × Node))
    (hmerge : ∀ e ∈ entries, e.1.isMergeKey = false) (hkeys : ∀ e ∈ entries, e.1.isAlias = false)
    (htexts : texts = true → ∀ e ∈ entries, e.1.isTextKey = true)
    (hdata : ∀ e ∈ entries, Ensures (data behind e.2) fun r => ∃ d, r = some d ∧ HasData e.2 d)
    (taken : Taken) (es : List (Scalar × Data)) :
    Ensures (walkOwn (dataEntry texts) behind taken es entries) fun p =>
      texts = true → taken = none → (∀ e ∈ entries, e.1.text? = some e.1.keyText) ∧
        ((es.map (·.1) ++ entries.map entryKey).Nodup →
          ∃ added, p.2 = es ++ added ∧ added.map (·.1) = entries.map entryKey ∧
            List.Forall₂ HasData (entries.map (·.2)) (added.map (·.2))) := by
  induction entries generalizing taken es with
  | nil =>
    apply Ensures.pure
    intro _ _
    exact ⟨by simp, fun _ => ⟨[], by simp, rfl, .nil⟩⟩
  | cons e rest ih =>
    rw [List.forall_mem_cons] at hmerge hkeys hdata
    have htexts' : texts = true → e.1.isTextKey = true ∧ ∀ d ∈ rest, d.1.isTextKey = true :=
      fun h => List.forall_mem_cons.mp (htexts h)
    rw [walkOwn, hmerge.1]
    apply (dataEntry_ensures texts behind e hkeys.1 (fun h => (htexts' h).1) hdata.1 taken es).bind
    rintro ⟨taken', es'⟩
    apply (ih hmerge.2 hkeys.2 (fun h => (htexts' h).2) hdata.2 taken' es').mono
    intro p hp hfirst htrue htaken
    obtain ⟨rfl, htext, d, hvalue, rfl⟩ := hfirst htrue htaken
    obtain ⟨hrest, hadded⟩ := hp htrue rfl
    refine ⟨List.forall_mem_cons.mpr ⟨htext, hrest⟩, fun hnodup => ?_⟩
    rw [List.map_cons] at hnodup
    have hfresh : entryKey e ∉ es.map (·.1) := by
      intro hmem
      exact (List.nodup_append.mp hnodup).2.2 _ hmem _ List.mem_cons_self rfl
    have hput : Data.put es (.text e.1.keyText) d = es ++ [(entryKey e, d)] :=
      put_fresh es e.1.keyText d hfresh
    rw [hput] at hadded
    obtain ⟨added, hes, hnames, hvalues⟩ := hadded (by simpa using hnodup)
    refine ⟨(entryKey e, d) :: added, ?_, ?_, ?_⟩
    · rw [hes, List.append_assoc]
      rfl
    · rw [List.map_cons, hnames, List.map_cons]
    · exact .cons hvalue hvalues

theorem dataItems_ensures (items : List Node)
    (hdata : ∀ n ∈ items, Ensures (data behind n) fun r => ∃ d, r = some d ∧ HasData n d) :
    Ensures (dataItems behind items) fun ds => List.Forall₂ HasData items ds := by
  induction items with
  | nil => exact .pure .nil
  | cons n rest ih =>
    obtain ⟨hn, hrest⟩ := List.forall_mem_cons.mp hdata
    rw [dataItems]
    apply hn.bind
    intro d?
    apply (ih hrest).bind
    intro ds
    apply Ensures.pure
    rintro hds ⟨d, rfl, hd⟩
    exact .cons hd hds

end

theorem walk_dataEntry_ensures (behind : Bool) (line : Nat) (tag : String)
    (entries : List (Node × Node)) (h : (mapping line tag entries).Plain)
    (hdata : ∀ e ∈ entries, Ensures (data behind e.2) fun r => ∃ d, r = some d ∧ HasData e.2 d)
    (texts : Bool) (htexts : texts = true → ∀ e ∈ entries, e.1.isTextKey = true) :
    Ensures (walk (dataEntry texts) behind [] entries) fun es =>
      duplicates entries = [] → HasData (mapping line tag entries) (.ofEntries texts es) := by
  have hmerge : ∀ e ∈ entries, e.1.isMergeKey = false := fun e he => (h.entry e he).1
  have halias : ∀ e ∈ entries, e.1.isAlias = false := fun e he => (h.entry e he).2.1.isAlias
  apply walk_ensures _ behind [] entries hmerge
  apply (walkOwn_dataEntry_ensures texts behind entries hmerge halias htexts hdata none []).mono
  intro p hp hduplicates
  cases texts with
  | false => exact .table _ _
  | true =>
    obtain ⟨htext, hadded⟩ := hp rfl rfl
    have hnodup := nodup_of_duplicates entries hduplicates htext
    have hfresh : (([] : List Scalar) ++ entries.map entryKey).Nodup := by
      have hinjective : Function.Injective Scalar.text := fun a b hab => Scalar.text.inj hab
      have hkeys := List.Nodup.map hinjective hnodup
      rw [List.map_map] at hkeys
      exact hkeys
    obtain ⟨added, hes, hnames, hvalues⟩ := hadded hfresh
    rw [hes]
    refine .object line tag entries _ ⟨htext, hnodup⟩ ?_ ?_
    · have hsame := congrArg (List.map Data.keyText) hnames
      simpa [Function.comp_def, entryKey, Data.keyText] using hsame
    · simpa [Function.comp_def] using hvalues

/-- A node without aliases and merge keys has a value, if it is decoded without problems. -/
theorem data_ensures (behind : Bool) (n : Node) (h : n.Plain) :
    Ensures (data behind n) fun r => ∃ d, r = some d ∧ HasData n d := by
  cases n with
  | scalar line tag text =>
    rw [data]
    apply (Ensures.visit behind).bind
    intro _
    apply (Ensures.lift _).bind
    intro v
    exact .pure fun hv _ => ⟨_, rfl, .scalar _ v (scalar?_scalar line tag text v hv)⟩
  | sequence line tag items =>
    have hitems := dataItems_ensures behind items fun n hn => data_ensures behind n (h.item n hn)
    rw [data]
    apply (Ensures.visit behind).bind
    intro _
    apply hitems.bind
    intro ds
    exact .pure fun hds _ => ⟨_, rfl, .list line tag items ds hds⟩
  | mapping line tag entries =>
    have hwalk := walk_dataEntry_ensures behind line tag entries h
      (fun e he => data_ensures behind e.2 (h.entry e he).2.2) _ fun h => List.all_eq_true.mp h
    rw [data_mapping]
    apply (Ensures.visit behind).bind
    intro _
    apply (reportDuplicates_ensures entries).bind
    intro repeated
    split
    · next hrepeated =>
      apply Ensures.pure
      rintro ⟨rfl, -⟩
      cases hrepeated
    · apply hwalk.bind
      intro es
      exact .pure fun hes hnone _ => ⟨_, rfl, hes hnone.2⟩
  | aliasOf => cases h.aliasFree
  | cycle line name anchor number =>
    rw [data]
    exact (Ensures.visit behind).bind fun _ => .throw _
termination_by sizeOf n
decreasing_by
  · have hsize := List.sizeOf_lt_of_mem hn
    subst_vars
    rw [sequence.sizeOf_spec]
    omega
  · have hsize := List.sizeOf_lt_of_mem he
    have hpair : sizeOf e = 1 + sizeOf e.1 + sizeOf e.2 := rfl
    subst_vars
    rw [mapping.sizeOf_spec]
    omega

end Node

end Netscribe.Yaml

/-! ### Accepted nodes -/

namespace Netscribe

open Yaml (Data Scalar)

namespace Yaml.Node

theorem exists_text (n : Node) (v : Scalar) (h : n.scalar? = some v) (hnull : v ≠ .null) :
    ∃ s, n.text? = some s := by
  cases v with
  | null => exact absurd rfl hnull
  | _ => simp [text?, h]

theorem exists_entry (n : Node) (key : String) (v : Node) (h : n.member? key = some v) :
    ∃ line tag entries, n = mapping line tag entries ∧
      ∃ e ∈ entries, e.1.keyText = key ∧ e.2 = v := by
  cases n with
  | mapping line tag entries =>
    obtain ⟨e, hfind, rfl⟩ := Option.map_eq_some_iff.mp h
    refine ⟨line, tag, entries, rfl, e, List.mem_of_find?_eq_some hfind, ?_, rfl⟩
    have hkey := List.find?_some hfind
    exact beq_iff_eq.mp hkey
  | _ => cases h

theorem member?_ne_none (line : Nat) (tag : String) (entries : List (Node × Node)) (key : String)
    (h : key ∈ entries.map (·.1.keyText)) : (mapping line tag entries).member? key ≠ none := by
  obtain ⟨e, he, hkey⟩ := List.mem_map.mp h
  intro hnone
  rw [member?, Option.map_eq_none_iff, List.find?_eq_none] at hnone
  exact hnone e he (beq_iff_eq.mpr hkey)

end Yaml.Node

def Yaml.Scalar.whole? : Scalar → Option Int
  | .int i => some i
  | .float x => if x.isInteger then some x.truncate else none
  | _ => none

namespace Document

open Yaml.Node (HasData Keyed)

def Schema.property? : Schema → String → Option Schema
  | .object _ properties, key => properties.lookup key
  | _, _ => none

def Accepted (s : Schema) (n : Yaml.Node) : Prop :=
  ∃ d, n.HasData d ∧ s.accepts (jsonCompatible d) = true

theorem accepted_text (least : Nat) (n : Yaml.Node) (h : Accepted (.text least) n) :
    ∃ s, n.text? = some s := by
  obtain ⟨d, hdata, haccepts⟩ := h
  rw [Schema.accepts_text_iff] at haccepts
  obtain ⟨w, k, hw, hlength, -⟩ := haccepts
  cases hdata with
  | scalar _ v hv =>
    apply n.exists_text v hv
    rintro rfl
    cases hw
    cases hlength
  | _ => cases hw

theorem accepted_integer (least : Int) (n : Yaml.Node) (h : Accepted (.integer least) n) :
    ∃ v i, n.scalar? = some v ∧ v.whole? = some i ∧ least ≤ i := by
  obtain ⟨d, hdata, haccepts⟩ := h
  rw [Schema.accepts_integer_iff] at haccepts
  obtain ⟨w, hw, hbelow⟩ := haccepts
  cases hdata with
  | scalar _ v hv =>
    have hw' : compatibleScalar v = w := by
      cases hw
      rfl
    -- a text in place of a number would be no integer
    rcases compatibleScalar_cases v with ⟨hsame, -⟩ | ⟨x, s, -, -, htext, -⟩
    · rw [← hw', hsame] at hbelow
      cases v with
      | int i =>
        refine ⟨_, i, hv, rfl, ?_⟩
        simpa [Schema.isBelow?] using hbelow
      | float x =>
        simp only [Schema.isBelow?] at hbelow
        split at hbelow
        · next hinteger =>
          refine ⟨_, x.truncate, hv, if_pos hinteger, ?_⟩
          simpa using hbelow
        · cases hbelow
      | _ => cases hbelow
    · rw [← hw', htext] at hbelow
      cases hbelow
  | _ => cases hw

theorem accepted_array (s : Schema) (n : Yaml.Node) (h : Accepted (.array s) n) :
    ∃ line tag items, n = .sequence line tag items ∧ ∀ m ∈ items, Accepted s m := by
  obtain ⟨d, hdata, haccepts⟩ := h
  rw [Schema.accepts_array_iff] at haccepts
  obtain ⟨ds, hds, hall⟩ := haccepts
  cases hdata with
  | list line tag items ds' hitems =>
    rw [jsonCompatible, jsonCompatibleItems_eq_map] at hds
    cases hds
    refine ⟨line, tag, items, rfl, ?_⟩
    induction hitems with
    | nil => simp
    | cons hdata _ ih =>
      rw [List.map_cons, List.forall_mem_cons] at hall
      rw [List.forall_mem_cons]
      exact ⟨⟨_, hdata, hall.1⟩, ih hall.2⟩
  | _ => cases hds

theorem exists_member_data (entries : List (Yaml.Node × Yaml.Node)) (es : List (String × Data))
    (hkeys : es.map (·.1) = entries.map (·.1.keyText))
    (hvalues : List.Forall₂ HasData (entries.map (·.2)) (es.map (·.2))) :
    ∀ e ∈ entries, ∃ a ∈ es, a.1 = e.1.keyText ∧ e.2.HasData a.2 := by
  induction entries generalizing es with
  | nil => simp
  | cons e rest ih =>
    cases es with
    | nil => cases hkeys
    | cons a es' =>
      obtain ⟨hkey, hrest⟩ := List.cons.inj hkeys
      obtain ⟨hvalue, htail⟩ := List.forall₂_cons.mp hvalues
      rw [List.forall_mem_cons]
      refine ⟨⟨a, List.mem_cons_self, hkey, hvalue⟩, ?_⟩
      intro d hd
      obtain ⟨b, hb, hfound⟩ := ih es' hrest htail d hd
      exact ⟨b, List.mem_cons_of_mem a hb, hfound⟩

theorem accepted_object (required : List String) (properties : List (String × Schema))
    (n : Yaml.Node) (h : Accepted (.object required properties) n) :
    ∃ line tag entries, n = .mapping line tag entries ∧ Keyed entries ∧
      (∀ key ∈ required, n.member? key ≠ none) ∧
      ∀ e ∈ entries, ∀ s, (Schema.object required properties).property? e.1.keyText = some s →
        Accepted s e.2 := by
  obtain ⟨d, hdata, haccepts⟩ := h
  rw [Schema.accepts_object_iff] at haccepts
  obtain ⟨es', hes, hrequired, hknown, hall⟩ := haccepts
  cases hdata with
  | object line tag entries es hkeyed hkeys hvalues =>
    rw [jsonCompatible, jsonCompatibleEntries_eq_map] at hes
    cases hes
    rw [List.map_map] at hrequired
    refine ⟨line, tag, entries, rfl, hkeyed, ?_, ?_⟩
    · intro key hkey
      apply Yaml.Node.member?_ne_none
      rw [← hkeys]
      exact hrequired hkey
    · intro e he s hlookup
      obtain ⟨a, ha, hkey, hdata⟩ := exists_member_data entries es hkeys hvalues e he
      rw [← hkey] at hlookup
      exact ⟨a.2, hdata, hall _ (List.mem_map_of_mem ha) s hlookup⟩
  | _ => cases hes

theorem accepted_member (required : List String) (properties : List (String × Schema))
    (n : Yaml.Node) (h : Accepted (.object required properties) n) (key : String) (v : Yaml.Node)
    (s : Schema) (hmember : n.member? key = some v)
    (hproperty : (Schema.object required properties).property? key = some s) : Accepted s v := by
  obtain ⟨line, tag, entries, hn, -, -, haccepted⟩ := accepted_object required properties n h
  obtain ⟨_, _, _, hn', e, he, rfl, rfl⟩ := n.exists_entry key v hmember
  rw [hn] at hn'
  cases hn'
  exact haccepted e he s hproperty

theorem accepted_object_or_null (n : Yaml.Node) (h : Accepted (.typed [.object, .null]) n) :
    (∃ line tag entries, n = .mapping line tag entries ∧ Keyed entries) ∨
      n.scalar? = some .null := by
  obtain ⟨d, hdata, haccepts⟩ := h
  rw [Schema.accepts_typed_iff] at haccepts
  cases hdata with
  | scalar _ v hv =>
    have htype : scalarType (compatibleScalar v) ∈ [JsonType.object, .null] := haccepts.2
    have hnull : v = .null := by
      rcases compatibleScalar_cases v with ⟨hsame, -⟩ | ⟨x, s, -, -, htext, -⟩
      · rw [hsame] at htype
        cases v with
        | null => rfl
        | _ => simp [scalarType] at htype
      · simp [htext, scalarType] at htype
    exact .inr (hnull ▸ hv)
  | object line tag entries es hkeyed hkeys hvalues => exact .inl ⟨line, tag, entries, rfl, hkeyed⟩
  | list => simp [jsonCompatible, jsonType] at haccepts
  | table => simp [jsonCompatible] at haccepts

end Document

end Netscribe
