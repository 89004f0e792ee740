import Netscribe.Proofs.ClosedGraph
import Netscribe.Proofs.Naming
import Netscribe.Proofs.PlainData

/-!
# Graphs are what their documents say

A document is decoded twice, as data for the schema and as records for the graph. Without aliases and
merge keys, the accepted data tells what the nodes of the document look like, so each field of a record
is given by the value under its key. The graph has one node for each entry of the list of nodes, in
order, and `NodeAsWritten` compares the two. An index is stored as it is denoted, except that two to the
power of 63 changes its sign: the schema admits it, and only as a float it is not refused later.
Attributes are listed as written, except that the tag of null on a mapping takes all of them away.
-/

namespace Netscribe.Document

open Yaml (Scalar)
open Yaml.Decoding (Ensures)
open Yaml.Node (Keyed)

/-! ### Fields -/

def ListsTexts (n : Yaml.Node) (ts : List String) : Prop :=
  ∃ line tag items, n = .sequence line tag items ∧
    List.Forall₂ (fun m s => m.text? = some s) items ts

section

variable {α β : Type}

theorem field_ensures (R : β → Prop) (read : Bool → Yaml.Node → Yaml.Decoding (Option β))
    (set : α → β → α) (behind : Bool) (v : Yaml.Node) (x : α)
    (h : Ensures (read behind v) fun r => ∃ b, r = some b ∧ R b) :
    Ensures (Yaml.Node.field read set behind v x) fun y => ∃ b, R b ∧ y = set x b := by
  unfold Yaml.Node.field
  apply h.bind
  intro r
  cases r with
  | none => exact .pure fun ⟨_, hr, _⟩ => by cases hr
  | some b =>
    apply Ensures.pure
    rintro ⟨_, hr, hb⟩
    cases hr
    exact ⟨b, hb, rfl⟩

theorem asText_of_accepted (behind : Bool) (v : Yaml.Node) (h : Accepted nameSchema v) :
    Ensures (v.asText behind) fun r => ∃ s, r = some s ∧ v.text? = some s := by
  obtain ⟨s, hs⟩ := accepted_text 1 v h
  rw [Yaml.Node.asText_of_text? behind v s hs]
  apply (Ensures.visit behind).bind
  intro _
  exact .pure fun _ => ⟨s, rfl, hs⟩

theorem asTexts_of_accepted (behind : Bool) (v : Yaml.Node) (h : Accepted namesSchema v) :
    Ensures (v.asTexts behind) fun r => ∃ ts, r = some ts ∧ ListsTexts v ts := by
  obtain ⟨line, tag, items, rfl, hitems⟩ := accepted_array nameSchema v h
  apply (Yaml.Node.asList_ensures (fun m s => m.text? = some s) Yaml.Node.asText behind "[]string"
    line tag items fun m hm => asText_of_accepted behind m (hitems m hm)).mono
  rintro _ ⟨ts, rfl, hts⟩
  exact ⟨ts, rfl, line, tag, items, rfl, hts⟩

end

theorem readIndex_ensures (behind : Bool) (v : Yaml.Node) (hplain : v.Plain)
    (h : Accepted (.integer 0) v) (e : NodeEntry) :
    Ensures (readIndex behind v e) fun y =>
      ∃ i, v.int? = some i ∧ y = { e with index := some i } := by
  obtain ⟨w, j, hw, hwhole, -⟩ := accepted_integer 0 v h
  have hnull : w ≠ .null := by
    rintro rfl
    cases hwhole
  have htag : ¬ v.tag = Yaml.Tag.null := fun htag => hnull ((v.tag_eq_null_iff w hw).mp htag)
  unfold readIndex
  rw [if_neg htag]
  apply (v.asInt_ensures "int" behind hplain.isAlias).bind
  intro r
  cases r with
  | some i => exact .pure fun hi => ⟨i, hi.1.symm, rfl⟩
  | none =>
    apply Ensures.pure
    intro hi
    have hscalar := hi.2 rfl
    rw [hw] at hscalar
    exact absurd (Option.some.inj hscalar) hnull

theorem readAttrs_ensures (behind : Bool) (v : Yaml.Node) (e : NodeEntry) :
    Ensures (readAttrs behind v e) (· = { e with attrs := some v }) := by
  apply (Ensures.visit behind).bind
  intro _
  exact .pure fun _ => rfl

/-! ### Records -/

structure NodeEntry.Puts (key : String) (v : Yaml.Node) (x y : NodeEntry) : Prop where
  index : if key = "index" then ∃ i, v.int? = some i ∧ y.index = some i else y.index = x.index
  name : if key = "name" then v.text? = some y.name else y.name = x.name
  op : if key = "op" then v.text? = some y.op else y.op = x.op
  inputs : if key = "inputs" then ListsTexts v y.inputs else y.inputs = x.inputs
  outputs : if key = "outputs" then ListsTexts v y.outputs else y.outputs = x.outputs
  attrs : if key = "attrs" then y.attrs = some v else y.attrs = x.attrs

theorem nodeRecord_reads (behind : Bool) (e : Yaml.Node × Yaml.Node)
    (hmerge : e.1.isMergeKey = false) (htext : e.1.text? = some e.1.keyText) (hplain : e.2.Plain)
    (haccepted : ∀ s, nodeSchema.property? e.1.keyText = some s → Accepted s e.2) :
    nodeRecord.Reads NodeEntry.Puts behind e where
  isMergeKey := hmerge
  text := htext
  field := by
    simp only [nodeRecord, List.forall_mem_cons]
    refine ⟨?_, ?_, ?_, ?_, ?_, ?_, fun field hfield => by cases hfield⟩
    · intro hkey x
      have hv := haccepted (.integer 0) (by rw [← hkey]; rfl)
      apply (readIndex_ensures behind e.2 hplain hv x).mono
      rintro _ ⟨i, hi, rfl⟩
      constructor <;> simp [hi]
    · intro hkey x
      have hv := haccepted nameSchema (by rw [← hkey]; rfl)
      apply (field_ensures _ _ _ behind e.2 x (asText_of_accepted behind e.2 hv)).mono
      rintro _ ⟨s, hs, rfl⟩
      constructor <;> simp [hs]
    · intro hkey x
      have hv := haccepted nameSchema (by rw [← hkey]; rfl)
      apply (field_ensures _ _ _ behind e.2 x (asText_of_accepted behind e.2 hv)).mono
      rintro _ ⟨s, hs, rfl⟩
      constructor <;> simp [hs]
    · intro hkey x
      have hv := haccepted namesSchema (by rw [← hkey]; rfl)
      apply (field_ensures _ _ _ behind e.2 x (asTexts_of_accepted behind e.2 hv)).mono
      rintro _ ⟨ts, hts, rfl⟩
      constructor <;> simp [hts]
    · intro hkey x
      have hv := haccepted namesSchema (by rw [← hkey]; rfl)
      apply (field_ensures _ _ _ behind e.2 x (asTexts_of_accepted behind e.2 hv)).mono
      rintro _ ⟨ts, hts, rfl⟩
      constructor <;> simp [hts]
    · intro _ x
      apply (readAttrs_ensures behind e.2 x).mono
      rintro _ rfl
      constructor <;> simp

/-- The node is a mapping of which this record is read. -/
def NodeEntry.ReadFrom (n : Yaml.Node) (e : NodeEntry) : Prop :=
  ∃ line tag entries, n = .mapping line tag entries ∧ Keyed entries ∧
    Yaml.Change.All NodeEntry.Puts entries {} e

theorem nodeRecord_ensures (behind : Bool) (n : Yaml.Node) (hplain : n.Plain)
    (h : Accepted nodeSchema n) :
    Ensures (nodeRecord.read? behind n {}) fun r => ∃ e, r = some e ∧ NodeEntry.ReadFrom n e := by
  obtain ⟨line, tag, entries, rfl, hkeyed, -, haccepted⟩ := accepted_object _ _ n h
  have hskip : ∀ name v x, name ∉ nodeRecord.fields.map (·.1) → NodeEntry.Puts name v x x := by
    intro name v x hname
    simp only [nodeRecord, List.map_cons, List.map_nil, List.mem_cons, not_or] at hname
    constructor <;> simp [hname]
  have hreads : ∀ e ∈ entries, nodeRecord.Reads NodeEntry.Puts behind e := by
    intro e he
    obtain ⟨hmerge, -, hv⟩ := hplain.entry e he
    exact nodeRecord_reads behind e hmerge (hkeyed.texts e he) hv (haccepted e he)
  apply (nodeRecord.read?_ensures NodeEntry.Puts hskip behind line tag entries hreads {}).mono
  rintro _ ⟨e, rfl, he⟩
  exact ⟨e, rfl, line, tag, entries, rfl, hkeyed, he⟩

def ListsEntries (n : Yaml.Node) (es : List NodeEntry) : Prop :=
  ∃ line tag items, n = .sequence line tag items ∧ List.Forall₂ NodeEntry.ReadFrom items es

theorem readNodes_ensures (behind : Bool) (v : Yaml.Node) (hplain : v.Plain)
    (h : Accepted (.array nodeSchema) v) :
    Ensures (readNodes behind v) fun r => ∃ es, r = some es ∧ ListsEntries v es := by
  obtain ⟨line, tag, items, rfl, hitems⟩ := accepted_array nodeSchema v h
  apply (Yaml.Node.asList_ensures NodeEntry.ReadFrom _ behind _ line tag items
    fun m hm => nodeRecord_ensures behind m (hplain.item m hm) (hitems m hm)).mono
  rintro _ ⟨es, rfl, hes⟩
  exact ⟨es, rfl, line, tag, items, rfl, hes⟩

structure GraphEntry.Puts (key : String) (v : Yaml.Node) (x y : GraphEntry) : Prop where
  name : if key = "name" then v.text? = some y.name else y.name = x.name
  outputs : if key = "outputs" then ListsTexts v y.outputs else y.outputs = x.outputs
  nodes : if key = "nodes" then ListsEntries v y.nodes else y.nodes = x.nodes

theorem graphRecord_reads (behind : Bool) (e : Yaml.Node × Yaml.Node)
    (hmerge : e.1.isMergeKey = false) (htext : e.1.text? = some e.1.keyText) (hplain : e.2.Plain)
    (haccepted : ∀ s, graphSchema.property? e.1.keyText = some s → Accepted s e.2) :
    graphRecord.Reads GraphEntry.Puts behind e where
  isMergeKey := hmerge
  text := htext
  field := by
    simp only [graphRecord, List.forall_mem_cons]
    refine ⟨?_, ?_, ?_, fun field hfield => by cases hfield⟩
    · intro hkey x
      have hv := haccepted nameSchema (by rw [← hkey]; rfl)
      apply (field_ensures _ _ _ behind e.2 x (asText_of_accepted behind e.2 hv)).mono
      rintro _ ⟨s, hs, rfl⟩
      constructor <;> simp [hs]
    · intro hkey x
      have hv := haccepted namesSchema (by rw [← hkey]; rfl)
      apply (field_ensures _ _ _ behind e.2 x (asTexts_of_accepted behind e.2 hv)).mono
      rintro _ ⟨ts, hts, rfl⟩
      constructor <;> simp [hts]
    · intro hkey x
      have hv := haccepted (.array nodeSchema) (by rw [← hkey]; rfl)
      apply (field_ensures _ _ _ behind e.2 x (readNodes_ensures behind e.2 hplain hv)).mono
      rintro _ ⟨es, hes, rfl⟩
      constructor <;> simp [hes]

theorem entryOf_puts (line : Nat) (tag : String) (entries : List (Yaml.Node × Yaml.Node))
    (hplain : (Yaml.Node.mapping line tag entries).Plain) (hkeyed : Keyed entries)
    (haccepted : ∀ e ∈ entries, ∀ s, graphSchema.property? e.1.keyText = some s → Accepted s e.2)
    (e : GraphEntry) (h : entryOf (.mapping line tag entries) = .ok e) :
    Yaml.Change.All GraphEntry.Puts entries {} e := by
  have hskip : ∀ name v x, name ∉ graphRecord.fields.map (·.1) → GraphEntry.Puts name v x x := by
    intro name v x hname
    simp only [graphRecord, List.map_cons, List.map_nil, List.mem_cons, not_or] at hname
    constructor <;> simp [hname]
  have hreads : ∀ e ∈ entries, graphRecord.Reads GraphEntry.Puts false e := by
    intro e he
    obtain ⟨hmerge, -, hv⟩ := hplain.entry e he
    exact graphRecord_reads false e hmerge (hkeyed.texts e he) hv (haccepted e he)
  refine Ensures.run ?_ e h
  apply (Ensures.visit false).bind
  intro _
  apply (graphRecord.read?_ensures GraphEntry.Puts hskip false line tag entries hreads {}).bind
  intro r
  apply Ensures.pure
  rintro ⟨y, rfl, hy⟩ -
  exact hy

/-! ### Nodes -/

def NodeEntry.Adds (position : Nat) (e : NodeEntry) (n : Netscribe.Node) : Prop :=
  ∃ attributes, attributesOf e.attrs = .ok attributes ∧
    n = ⟨e.index.getD position, e.name, ⟨e.op, attributes⟩, e.inputs, e.outputs⟩

theorem addEntries_nodes (g g' : Graph) (i : Nat) (es : List NodeEntry)
    (h : addEntries g i es = .ok g') :
    g'.name = g.name ∧ ∃ added, g'.nodes = g.nodes ++ added ∧
      List.Forall₂ (fun p n => NodeEntry.Adds p.2 p.1 n) (es.zipIdx i) added := by
  induction es generalizing g i with
  | nil =>
    cases h
    exact ⟨rfl, [], by simp, .nil⟩
  | cons e rest ih =>
    obtain ⟨attributes, g₁, hattributes, hadded, -, -, hkept, hrest⟩ :=
      addEntries_cons_ok g g' i e rest h
    obtain ⟨hname, added, hnodes, hall⟩ := ih g₁ (i + 1) hrest
    refine ⟨hname.trans hkept, _ :: added, ?_, .cons ⟨attributes, hattributes, rfl⟩ hall⟩
    rw [hnodes, hadded.nodes, List.append_assoc]
    rfl

/-! ### What a document says -/

def SaysTexts (v : Option Yaml.Node) (ts : List String) : Prop :=
  match v with
  | some v => ListsTexts v ts
  | none => ts = []

/-- The attributes are the entries of the mapping in order, with distinct names. Null, and no node at
all, say that there are none. -/
def SaysAttributes (v : Option Yaml.Node) (as : List Attribute) : Prop :=
  match v with
  | none => as = []
  | some (.mapping _ _ entries) => (as.map (·.name)).Nodup ∧
    List.Forall₂ (fun e a => a.name = e.1.keyText ∧ valueOf e.2 = .ok a.value) entries as
  | some v => v.scalar? = some .null ∧ as = []

/-- The integer that a node denotes; a spelling with a point denotes a number of double precision. -/
def denoted? (v : Yaml.Node) : Option Int := v.scalar?.bind Scalar.whole?

def SaysIndex (position : Nat) (v : Option Yaml.Node) (i : Int) : Prop :=
  match v with
  | none => i = position
  | some v => denoted? v = some i

structure SaysNode (item : Yaml.Node) (node : Netscribe.Node) : Prop where
  name : (item.member? "name").bind Yaml.Node.text? = some node.name
  op : (item.member? "op").bind Yaml.Node.text? = some node.op.type
  inputs : SaysTexts (item.member? "inputs") node.inputs
  outputs : SaysTexts (item.member? "outputs") node.outputs

def NullTagged (v : Option Yaml.Node) : Prop :=
  ∃ line entries, v = some (.mapping line Yaml.Tag.null entries) ∧ entries ≠ []

/-- The node denotes two to the power of 63, the first number beyond the signed ones of 64 bits. -/
def DenotesSignedEnd (v : Option Yaml.Node) : Prop :=
  v.bind denoted? = some (Scalar.signedEnd : Int)

theorem attributesOfEntries_ok (entries : List (Yaml.Node × Yaml.Node)) (as : List Attribute)
    (h : attributesOfEntries entries = .ok as) :
    List.Forall₂ (fun e a => a.name = e.1.keyText ∧ valueOf e.2 = .ok a.value) entries as := by
  induction entries generalizing as with
  | nil =>
    cases h
    exact .nil
  | cons e rest ih =>
    rw [attributesOfEntries] at h
    cases hvalue : valueOf e.2 with
    | error x =>
      rw [hvalue] at h
      cases h
    | ok value =>
      rw [hvalue] at h
      cases hrest : attributesOfEntries rest with
      | error x =>
        rw [hrest] at h
        cases h
      | ok others =>
        rw [hrest] at h
        cases h
        exact .cons ⟨rfl, hvalue⟩ (ih others hrest)

theorem attributes_said_iff (v : Option Yaml.Node) (as : List Attribute)
    (haccepted : ∀ m, v = some m → Accepted (.typed [.object, .null]) m)
    (h : attributesOf v = .ok as) :
    (SaysAttributes v as ↔ ¬ NullTagged v) ∧ (NullTagged v → as = []) := by
  cases v with
  | none =>
    cases h
    have hnot : ¬ NullTagged none := by
      intro ⟨_, _, hv, _⟩
      cases hv
    exact ⟨⟨fun _ => hnot, fun _ => rfl⟩, fun _ => rfl⟩
  | some m =>
    rcases accepted_object_or_null m (haccepted m rfl) with ⟨line, tag, entries, rfl, hkeyed⟩ | hnull
    · by_cases htag : tag = Yaml.Tag.null
      · have hnone : as = [] := by
          rw [attributesOf, if_pos htag] at h
          cases h
          rfl
        have htagged : NullTagged (some (.mapping line tag entries)) ↔ entries ≠ [] := by
          constructor
          · intro ⟨_, _, hv, hentries⟩
            cases hv
            exact hentries
          · intro hentries
            exact ⟨line, entries, by rw [htag], hentries⟩
        refine ⟨?_, fun _ => hnone⟩
        rw [htagged, hnone]
        simp [SaysAttributes]
      · have hnot : ¬ NullTagged (some (.mapping line tag entries)) := by
          intro ⟨_, _, hv, _⟩
          cases hv
          exact htag rfl
        rw [attributesOf, if_neg htag] at h
        have hall := attributesOfEntries_ok entries as h
        have hnames : as.map (·.name) = entries.map (·.1.keyText) := by
          clear h hkeyed haccepted hnot
          induction hall with
          | nil => rfl
          | cons ha _ ih => rw [List.map_cons, ha.1, ih, List.map_cons]
        refine ⟨⟨fun _ => hnot, fun _ => ⟨?_, hall⟩⟩, fun hv => absurd hv hnot⟩
        rw [hnames]
        exact hkeyed.nodup
    · have htag := (m.tag_eq_null_iff _ hnull).mpr rfl
      cases m with
      | scalar line tag text =>
        rw [attributesOf, if_pos (show tag = Yaml.Tag.null from htag)] at h
        cases h
        have hnot : ¬ NullTagged (some (.scalar line tag text)) := by
          intro ⟨_, _, hv, _⟩
          cases hv
        exact ⟨⟨fun _ => hnot, fun _ => ⟨hnull, rfl⟩⟩, fun _ => rfl⟩
      | _ => cases hnull

theorem int64?_of_whole? (w : Scalar) (i j : Int) (hwhole : w.whole? = some j) (hj : 0 ≤ j)
    (h : Yaml.Node.int64? w = some i) :
    i = if j = Scalar.signedEnd then -(Scalar.signedEnd : Int) else j := by
  cases w with
  | int k =>
    cases hwhole
    rw [Yaml.Node.int64?] at h
    split at h
    · next hbelow =>
      cases h
      rw [if_neg (by omega)]
    · cases h
  | float x =>
    rw [Yaml.Scalar.whole?] at hwhole
    split at hwhole
    · next hinteger =>
      cases hwhole
      have hfinite : x.isFinite = true := by
        rw [Binary64.isInteger, Bool.and_eq_true] at hinteger
        exact hinteger.1
      rw [Yaml.Node.int64?, if_pos hfinite] at h
      dsimp only at h
      split at h
      · next hend =>
        cases h
        rw [if_pos (by omega)]
      · next hend =>
        split at h
        · cases h
          rw [if_neg (by omega)]
        · cases h
    · cases hwhole
  | _ => cases hwhole

/-! ### Entries -/

/-- What the graph has of an entry of the list of nodes, at its position. -/
structure NodeAsWritten (position : Nat) (item : Yaml.Node) (node : Netscribe.Node) : Prop where
  parts : SaysNode item node
  attributes_iff : SaysAttributes (item.member? "attrs") node.op.attributes ↔
    ¬ NullTagged (item.member? "attrs")
  attributes_lost : NullTagged (item.member? "attrs") → node.op.attributes = []
  index_iff : (SaysIndex position (item.member? "index") node.index ∧ 0 ≤ node.index ∧
      ∀ name : GeneratedName, name.index = node.index → Naming.IsAttribute name.text) ↔
    ¬ DenotesSignedEnd (item.member? "index")
  index_wrapped : DenotesSignedEnd (item.member? "index") → node.index = -Scalar.signedEnd

theorem index_said_iff (position : Nat) (v : Option Yaml.Node) (i? : Option Int)
    (haccepted : ∀ m, v = some m → Accepted (.integer 0) m)
    (hsome : ∀ m, v = some m → ∃ i, m.int? = some i ∧ i? = some i) (hnone : v = none → i? = none) :
    ((SaysIndex position v (i?.getD position) ∧ 0 ≤ i?.getD position) ↔ ¬ DenotesSignedEnd v) ∧
      (DenotesSignedEnd v → i?.getD position = -Scalar.signedEnd) := by
  unfold DenotesSignedEnd
  cases v with
  | none =>
    obtain rfl := hnone rfl
    simp [SaysIndex]
  | some v =>
    obtain ⟨i, hi, rfl⟩ := hsome v rfl
    obtain ⟨w, j, hw, hwhole, hj⟩ := accepted_integer 0 v (haccepted v rfl)
    have hdenoted : denoted? v = some j := by
      rw [denoted?, hw]
      exact hwhole
    have hint : Yaml.Node.int64? w = some i := by
      rw [Yaml.Node.int?, hw] at hi
      exact hi
    have hstored := int64?_of_whole? w i j hwhole hj hint
    simp only [SaysIndex, Option.getD_some, Option.bind_some, hdenoted, Option.some.injEq]
    have hpositive : (0 : Int) < Scalar.signedEnd := by decide
    split at hstored
    · next hend => exact ⟨⟨fun hsame => by omega, fun hnot => absurd hend hnot⟩, fun _ => hstored⟩
    · next hend => exact ⟨⟨fun _ => hend, fun _ => by omega⟩, fun hend' => absurd hend' hend⟩

theorem text_of_required (m : Option Yaml.Node) (s : String) (hrequired : m ≠ none)
    (h : ∀ v, m = some v → v.text? = some s) : m.bind Yaml.Node.text? = some s := by
  cases m with
  | none => exact absurd rfl hrequired
  | some v => exact h v rfl

theorem saysTexts_of_parts (m : Option Yaml.Node) (ts : List String)
    (h : (∀ v, m = some v → ListsTexts v ts) ∧ (m = none → ts = [])) : SaysTexts m ts := by
  cases m with
  | none => exact h.2 rfl
  | some v => exact h.1 v rfl

theorem nodeAsWritten (position : Nat) (item : Yaml.Node) (e : NodeEntry) (node : Netscribe.Node)
    (haccepted : Accepted nodeSchema item) (hread : NodeEntry.ReadFrom item e)
    (hadds : e.Adds position node) : NodeAsWritten position item node := by
  obtain ⟨attributes, hattributes, rfl⟩ := hadds
  obtain ⟨line, tag, entries, rfl, hkeyed, hputs⟩ := hread
  obtain ⟨-, -, -, -, -, hrequired, -⟩ := accepted_object _ _ _ haccepted
  have hmember := accepted_member _ _ _ haccepted
  have hindex := hputs.part NodeEntry.index "index" (fun v i? => ∃ i, v.int? = some i ∧ i? = some i)
    (fun _ _ _ _ h => h.index) line tag entries hkeyed.nodup
  have hname := hputs.part NodeEntry.name "name" (fun v s => v.text? = some s)
    (fun _ _ _ _ h => h.name) line tag entries hkeyed.nodup
  have hop := hputs.part NodeEntry.op "op" (fun v s => v.text? = some s)
    (fun _ _ _ _ h => h.op) line tag entries hkeyed.nodup
  have hinputs := hputs.part NodeEntry.inputs "inputs" ListsTexts
    (fun _ _ _ _ h => h.inputs) line tag entries hkeyed.nodup
  have houtputs := hputs.part NodeEntry.outputs "outputs" ListsTexts
    (fun _ _ _ _ h => h.outputs) line tag entries hkeyed.nodup
  have hattrs : e.attrs = (Yaml.Node.mapping line tag entries).member? "attrs" := by
    have hpart := hputs.part NodeEntry.attrs "attrs" (fun v a => a = some v)
      (fun _ _ _ _ h => h.attrs) line tag entries hkeyed.nodup
    cases hvalue : (Yaml.Node.mapping line tag entries).member? "attrs" with
    | none => exact hpart.2 hvalue
    | some v => exact hpart.1 v hvalue
  rw [hattrs] at hattributes
  obtain ⟨hsaid, hlost⟩ := attributes_said_iff _ attributes
    (fun m hm => hmember "attrs" m _ hm rfl) hattributes
  obtain ⟨hindex_iff, hwrapped⟩ := index_said_iff position _ e.index
    (fun m hm => hmember "index" m _ hm rfl) hindex.1 hindex.2
  refine ⟨⟨?_, ?_, ?_, ?_⟩, hsaid, hlost, ?_, hwrapped⟩
  · exact text_of_required _ _ (hrequired "name" (by simp)) hname.1
  · exact text_of_required _ _ (hrequired "op" (by simp)) hop.1
  · exact saysTexts_of_parts _ _ hinputs
  · exact saysTexts_of_parts _ _ houtputs
  · rw [← hindex_iff]
    constructor
    · intro ⟨hsame, hnonneg, _⟩
      exact ⟨hsame, hnonneg⟩
    · intro ⟨hsame, hnonneg⟩
      refine ⟨hsame, hnonneg, fun name hname => ?_⟩
      rw [name.isAttribute_text_iff, hname]
      exact hnonneg

/-! ### Documents -/

theorem accepted_of_validateNode (n : Yaml.Node) (hplain : n.Plain)
    (h : validateNode (some n) = .ok ()) : Accepted graphSchema n := by
  simp only [validateNode, Yaml.Data.ofDocument] at h
  cases hrun : Yaml.Decoding.run (do
      Yaml.Decoding.visit false
      return (← n.data false).getD (.scalar .null)) with
  | error x =>
    rw [hrun] at h
    cases h
  | ok d =>
    rw [hrun] at h
    have hdata : n.HasData d := by
      refine Ensures.run ?_ d hrun
      apply (Ensures.visit false).bind
      intro _
      apply (n.data_ensures false hplain).bind
      intro r
      apply Ensures.pure
      rintro ⟨d', rfl, hd⟩ -
      exact hd
    refine ⟨d, hdata, ?_⟩
    change check d = .ok () at h
    simp only [check] at h
    split at h
    · split at h
      · next hviolations => exact (Schema.accepts_iff_violations _ _).mpr hviolations
      · cases h
    · cases h

/-- What the graph has of a document. -/
structure AsWritten (n : Yaml.Node) (g : Graph) : Prop where
  name : (n.member? "name").bind Yaml.Node.text? = some g.name
  outputs : SaysTexts (n.member? "outputs") g.outputs
  nodes : ∃ line tag items, n.member? "nodes" = some (.sequence line tag items) ∧
    List.Forall₂ (fun p node => NodeAsWritten p.2 p.1 node) items.zipIdx g.nodes

theorem nodes_asWritten (i : Nat) (items : List Yaml.Node) (es : List NodeEntry)
    (nodes : List Netscribe.Node) (haccepted : ∀ m ∈ items, Accepted nodeSchema m)
    (hread : List.Forall₂ NodeEntry.ReadFrom items es)
    (hadds : List.Forall₂ (fun p n => NodeEntry.Adds p.2 p.1 n) (es.zipIdx i) nodes) :
    List.Forall₂ (fun p node => NodeAsWritten p.2 p.1 node) (items.zipIdx i) nodes := by
  induction hread generalizing i nodes with
  | nil =>
    cases hadds
    exact .nil
  | @cons item e items es hitem _ ih =>
    rw [List.zipIdx_cons] at hadds ⊢
    obtain ⟨haccepted', hrest⟩ := List.forall_mem_cons.mp haccepted
    cases hadds with
    | cons hadd hadds =>
      exact .cons (nodeAsWritten i item e _ haccepted' hitem hadd) (ih (i + 1) _ hrest hadds)

/-- A document without aliases and merge keys is decoded as it is written, up to two exceptions: an
index that denotes two to the power of 63 changes its sign, and attributes with the tag of null are
lost. -/
theorem decoded_graph_as_written (bytes : List UInt8) (g : Graph) (h : decode bytes = .ok g) :
    ∃ n, parse bytes = .ok (some n) ∧
      (n.aliasFree = true → n.mergeFree = true → AsWritten n g) := by
  obtain ⟨n, e, hparse, hvalidate, hentry, hgraph⟩ := decode_ok bytes g h
  refine ⟨n, hparse, fun halias hmerge => ?_⟩
  have haccepted := accepted_of_validateNode n ⟨halias, hmerge⟩ hvalidate
  obtain ⟨line, tag, entries, rfl, hkeyed, hrequired, hmembers⟩ := accepted_object _ _ n haccepted
  have hputs := entryOf_puts line tag entries ⟨halias, hmerge⟩ hkeyed hmembers e hentry
  obtain ⟨g₁, hadd, -, -, rfl⟩ := graphOf_ok e g hgraph
  obtain ⟨hgraphName, added, hadded, hall⟩ := addEntries_nodes _ g₁ 0 e.nodes hadd
  have hname := hputs.part GraphEntry.name "name" (fun v s => v.text? = some s)
    (fun _ _ _ _ h => h.name) line tag entries hkeyed.nodup
  have houtputs := hputs.part GraphEntry.outputs "outputs" ListsTexts
    (fun _ _ _ _ h => h.outputs) line tag entries hkeyed.nodup
  have hnodes := hputs.part GraphEntry.nodes "nodes" ListsEntries
    (fun _ _ _ _ h => h.nodes) line tag entries hkeyed.nodup
  refine ⟨?_, saysTexts_of_parts _ _ houtputs, ?_⟩
  · have hkept : (g₁.setOutputs e.outputs).name = e.name :=
      (g₁.registerAll_name e.outputs).trans hgraphName
    rw [hkept]
    exact text_of_required _ _ (hrequired "name" (by simp)) hname.1
  · cases hmember : (Yaml.Node.mapping line tag entries).member? "nodes" with
    | none => exact absurd hmember (hrequired "nodes" (by simp))
    | some v =>
      obtain ⟨line', tag', items, rfl, hread⟩ := hnodes.1 v hmember
      obtain ⟨_, _, _, hsequence, hitems⟩ := accepted_array nodeSchema _
        (accepted_member _ _ _ haccepted "nodes" _ _ hmember rfl)
      cases hsequence
      have hsame : (g₁.setOutputs e.outputs).nodes = added :=
        (g₁.registerAll_nodes e.outputs).trans hadded
      rw [hsame]
      exact ⟨line', tag', items, rfl, nodes_asWritten 0 items e.nodes added hitems hread hall⟩

def decodesPlain (bytes : List UInt8) (test : Yaml.Node → Graph → Bool) : Bool :=
  match parse bytes, decode bytes with
  | .ok (some n), .ok g => n.aliasFree && n.mergeFree && test n g
  | _, _ => false

theorem exists_of_decodesPlain (bytes : List UInt8) (test : Yaml.Node → Graph → Bool)
    (h : decodesPlain bytes test = true) :
    ∃ n g, parse bytes = .ok (some n) ∧ n.Plain ∧ decode bytes = .ok g ∧ test n g = true := by
  unfold decodesPlain at h
  split at h
  · next n g hparse hdecode =>
    rw [Bool.and_eq_true, Bool.and_eq_true] at h
    exact ⟨n, g, hparse, ⟨h.1.1, h.1.2⟩, hdecode, h.2⟩
  · cases h

def numberedDocument : List UInt8 :=
  Utf8.encode ("\x7bname: N, outputs: [b], nodes: [\x7bname: x, op: input, outputs: [a]\x7d, " ++
    "\x7bname: f, op: exp, index: 4.0, inputs: [a], outputs: [b], attrs: \x7bp: 3, q: y\x7d\x7d]\x7d")

theorem numbered_document_as_written :
    ∃ n g, parse numberedDocument = .ok (some n) ∧ n.Plain ∧ decode numberedDocument = .ok g ∧
      g.nodes.map (·.index) = [0, 4] ∧ AsWritten n g := by
  obtain ⟨n, g, hparse, hplain, hdecode, htest⟩ := exists_of_decodesPlain numberedDocument
    (fun _ g => decide (g.nodes.map (·.index) = [0, 4])) (by decide +kernel)
  obtain ⟨n', hparse', hwritten⟩ := decoded_graph_as_written numberedDocument g hdecode
  rw [hparse] at hparse'
  cases hparse'
  exact ⟨n, g, hparse, hplain, hdecode, of_decide_eq_true htest,
    hwritten hplain.aliasFree hplain.mergeFree⟩

/-- The index is a float that is two to the power of 63. -/
def wrappedDocument : List UInt8 :=
  Utf8.encode "\x7bname: N, nodes: [\x7bname: f, op: exp, index: 9223372036854775808.0\x7d]\x7d"

/-- The attributes are a mapping with the tag of null. -/
def nullTaggedDocument : List UInt8 :=
  Utf8.encode "\x7bname: N, nodes: [\x7bname: f, op: exp, attrs: !!null \x7bp: 3\x7d\x7d]\x7d"

def nodeItems (n : Yaml.Node) : List Yaml.Node :=
  match n.member? "nodes" with
  | some (.sequence _ _ items) => items
  | _ => []

theorem written_index_and_attributes_lost :
    (∃ n g, parse wrappedDocument = .ok (some n) ∧ n.Plain ∧ decode wrappedDocument = .ok g ∧
      (nodeItems n).map (fun m => (m.member? "index").bind denoted?) = [some 9223372036854775808] ∧
      g.nodes.map (·.index) = [-9223372036854775808] ∧
      ¬ Naming.IsAttribute (Naming.submodule (-9223372036854775808))) ∧
    ∃ n g, parse nullTaggedDocument = .ok (some n) ∧ n.Plain ∧ decode nullTaggedDocument = .ok g ∧
      (nodeItems n).map (fun m => ((m.member? "attrs").bind (·.member? "p")).bind denoted?) =
        [some 3] ∧
      g.nodes.map (·.op.attributeNames) = [[]] := by
  constructor
  · obtain ⟨n, g, hparse, hplain, hdecode, htest⟩ := exists_of_decodesPlain wrappedDocument
      (fun n g => decide ((nodeItems n).map (fun m => (m.member? "index").bind denoted?) =
          [some 9223372036854775808]) &&
        decide (g.nodes.map (·.index) = [-9223372036854775808])) (by decide +kernel)
    rw [Bool.and_eq_true, decide_eq_true_eq, decide_eq_true_eq] at htest
    refine ⟨n, g, hparse, hplain, hdecode, htest.1, htest.2, ?_⟩
    intro hattribute
    have hnonneg := (GeneratedName.isAttribute_text_iff (.submodule (-9223372036854775808))).mp
      hattribute
    exact absurd hnonneg (by decide)
  · obtain ⟨n, g, hparse, hplain, hdecode, htest⟩ := exists_of_decodesPlain nullTaggedDocument
      (fun n g => decide ((nodeItems n).map
          (fun m => ((m.member? "attrs").bind (·.member? "p")).bind denoted?) = [some 3]) &&
        decide (g.nodes.map (·.op.attributeNames) = [[]])) (by decide +kernel)
    rw [Bool.and_eq_true, decide_eq_true_eq, decide_eq_true_eq] at htest
    exact ⟨n, g, hparse, hplain, hdecode, htest.1, htest.2⟩

end Netscribe.Document
