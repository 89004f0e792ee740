import Netscribe.Document.Graph
import Netscribe.Proofs.AliasData

/-!
# Graph documents with aliases

A graph document describes the same graph as the expanded document, or none. It describes none if an
alias is refused on reading, or if the attributes of a node are an alias: they are kept as the node
that stands there, and only a mapping lists attributes. Everywhere else aliases stand for what they
refer to.
-/

namespace Netscribe

namespace Document

open Yaml (Decoding)
open Yaml.Node (expanded expandedItems expandedEntries keyText_expanded item_below entry_below
  target_below hereditary_aliasesValues)
open Yaml.Decoding (Mirrors)

/-! ### Attribute values -/

theorem taggedText_expanded (key : String) (v : Yaml.Node) (h : v.aliasesValues = true) :
    taggedText key v.expanded.resolved = taggedText key v.resolved := by
  cases v with
  | aliasOf line name target =>
    cases target with
    | aliasOf => cases h
    | _ => rfl
  | _ => rfl

theorem valuesOf_expanded (items : List Yaml.Node)
    (h : ∀ n ∈ items, valueOf n.expanded = valueOf n) :
    valuesOf (expandedItems items) = valuesOf items := by
  induction items with
  | nil => rfl
  | cons n rest ih =>
    obtain ⟨hn, hrest⟩ := List.forall_mem_cons.mp h
    rw [expandedItems, valuesOf, valuesOf, hn, ih hrest]

theorem itemsUnder_expanded (key : String) (v : Yaml.Node) (h : v.aliasesValues = true)
    (hvalue : ∀ m : Yaml.Node, m.aliasesValues = true ∧ sizeOf m < sizeOf v →
      valueOf m.expanded = valueOf m) :
    itemsUnder key v.expanded = itemsUnder key v := by
  cases v with
  | sequence line tag items =>
    have hitems := item_below line tag items h
    rw [expanded, itemsUnder, itemsUnder]
    exact valuesOf_expanded items fun m hm => hvalue m (hitems m hm)
  | aliasOf line name target =>
    obtain ⟨⟨htarget, hsize⟩, halias⟩ := target_below line name target h
    cases target with
    | sequence line' tag items =>
      have hitems := item_below line' tag items htarget
      rw [expanded, expanded, itemsUnder, itemsUnder]
      apply valuesOf_expanded items
      intro m hm
      obtain ⟨hm, hlt⟩ := hitems m hm
      exact hvalue m ⟨hm, by omega⟩
    | aliasOf => cases halias
    | _ => rfl
  | _ => rfl

theorem valueOf_expanded (n : Yaml.Node) (h : n.aliasesValues = true) :
    valueOf n.expanded = valueOf n := by
  have hvalue : ∀ m : Yaml.Node, m.aliasesValues = true ∧ sizeOf m < sizeOf n →
      valueOf m.expanded = valueOf m := fun m hm => valueOf_expanded m hm.1
  cases n with
  | scalar => rfl
  | sequence line tag items =>
    have hitems := item_below line tag items h
    rw [expanded, valueOf, valueOf, valuesOf_expanded items fun m hm => hvalue m (hitems m hm)]
  | mapping line tag entries =>
    have hentries := entry_below line tag entries h
    match entries with
    | [] => rfl
    | [(k, v)] =>
      obtain ⟨hkey, -, hv, hsize⟩ := hentries (k, v) (List.mem_singleton.mpr rfl)
      have hitems : ∀ key, itemsUnder key v.expanded = itemsUnder key v := by
        intro key
        apply itemsUnder_expanded key v hv
        rintro m ⟨hm, hlt⟩
        exact hvalue m ⟨hm, Nat.lt_trans hlt hsize⟩
      rw [expanded, expandedEntries, expandedEntries, valueOf, valueOf, keyText_expanded k hkey]
      simp only [taggedText_expanded _ v hv, hitems]
    | _ :: _ :: _ => rfl
  | aliasOf line name target =>
    rw [expanded, valueOf]
    exact hvalue target (target_below line name target h).1
  | cycle => rfl
termination_by sizeOf n
decreasing_by exact hm.2

theorem attributesOfEntries_expanded (entries : List (Yaml.Node × Yaml.Node))
    (h : ∀ e ∈ entries, e.1.isAlias = false ∧ e.2.aliasesValues = true) :
    attributesOfEntries (expandedEntries entries) = attributesOfEntries entries := by
  induction entries with
  | nil => rfl
  | cons e rest ih =>
    obtain ⟨⟨hkey, hvalue⟩, hrest⟩ := List.forall_mem_cons.mp h
    rw [expandedEntries, attributesOfEntries, attributesOfEntries, ih hrest,
      keyText_expanded e.1 hkey, valueOf_expanded e.2 hvalue]

theorem attributesOf_expanded (n : Yaml.Node) (h : n.aliasesValues = true)
    (halias : n.isAlias = false) : attributesOf (some n.expanded) = attributesOf (some n) := by
  cases n with
  | mapping line tag entries =>
    have hentries := hereditary_aliasesValues.entry line tag entries h
    rw [expanded, attributesOf, attributesOf, attributesOfEntries_expanded entries]
    exact fun e he => ⟨(hentries e he).1, (hentries e he).2.2⟩
  | aliasOf => cases halias
  | _ => rfl

/-! ### Entries -/

namespace NodeEntry

def expanded (e : NodeEntry) : NodeEntry := { e with attrs := e.attrs.map Yaml.Node.expanded }

def aliasedAttrs (e : NodeEntry) : Bool := e.attrs.any Yaml.Node.isAlias

/-- The two entries are read from a document and from the expanded document. -/
structure Expands (e d : NodeEntry) : Prop where
  values : ∀ n, e.attrs = some n → n.aliasesValues = true
  eq : d = e.expanded

theorem Expands.attributes {e d : NodeEntry} (h : e.Expands d) (halias : e.aliasedAttrs = false) :
    attributesOf d.attrs = attributesOf e.attrs := by
  rw [h.eq]
  cases hattrs : e.attrs with
  | none => simp only [expanded, hattrs, Option.map_none]
  | some n =>
    have hn : n.isAlias = false := by simpa [aliasedAttrs, hattrs] using halias
    simp only [expanded, hattrs, Option.map_some]
    exact attributesOf_expanded n (h.values n hattrs) hn

theorem attributesOf_aliased (e : NodeEntry) (halias : e.aliasedAttrs = true) :
    attributesOf e.attrs = .error .notMapping := by
  cases hattrs : e.attrs with
  | none => simp [aliasedAttrs, hattrs] at halias
  | some n =>
    have hn : n.isAlias = true := by simpa [aliasedAttrs, hattrs] using halias
    cases n with
    | aliasOf => rfl
    | _ => cases hn

end NodeEntry

/-- The entries are added as the expanded ones are, or up to the first with aliased attributes. -/
theorem addEntries_expands (g : Graph) (i : Nat) (es ds : List NodeEntry)
    (h : List.Forall₂ NodeEntry.Expands es ds) :
    (∃ e ∈ es, e.aliasedAttrs = true ∧
        addEntries g i es = .error (.inAttributes e.name .notMapping)) ∨
      (addEntries g i es = addEntries g i ds ∧
        ∀ g', addEntries g i es = .ok g' → ∀ e ∈ es, e.aliasedAttrs = false) := by
  induction h generalizing g i with
  | nil => exact .inr ⟨rfl, fun _ _ e he => by cases he⟩
  | @cons e d es ds hed _ ih =>
    cases halias : e.aliasedAttrs with
    | true =>
      refine .inl ⟨e, List.mem_cons_self .., halias, ?_⟩
      simp only [addEntries, e.attributesOf_aliased halias]
      rfl
    | false =>
      have hattributes := hed.attributes halias
      obtain rfl := hed.eq
      simp only [addEntries, hattributes]
      cases attributesOf e.attrs with
      | error x => exact .inr ⟨rfl, fun g' hg' => by cases hg'⟩
      | ok attributes =>
        simp only [Except.mapError, bind, Except.bind, NodeEntry.expanded]
        cases g.addAt (e.index.getD i) e.name (some ⟨e.op, attributes⟩) e.inputs e.outputs with
        | mk g₁ result =>
          cases result with
          | error r => exact .inr ⟨rfl, fun g' hg' => by cases hg'⟩
          | ok _ =>
            rcases ih g₁ (i + 1) with ⟨x, hx, hxalias, hfail⟩ | ⟨heq, hok⟩
            · exact .inl ⟨x, List.mem_cons_of_mem _ hx, hxalias, hfail⟩
            · refine .inr ⟨heq, fun g' hg' => ?_⟩
              rw [List.forall_mem_cons]
              exact ⟨halias, hok g' hg'⟩

structure GraphEntry.Expands (e d : GraphEntry) : Prop where
  name : d.name = e.name
  outputs : d.outputs = e.outputs
  nodes : List.Forall₂ NodeEntry.Expands e.nodes d.nodes

theorem graphOf_expands (e d : GraphEntry) (h : e.Expands d) :
    (∃ x ∈ e.nodes, x.aliasedAttrs = true ∧
        graphOf e = .error (.inAttributes x.name .notMapping)) ∨
      (graphOf e = graphOf d ∧ ∀ g, graphOf e = .ok g → ∀ x ∈ e.nodes, x.aliasedAttrs = false) := by
  have hadd := addEntries_expands (.empty e.name) 0 e.nodes d.nodes h.nodes
  unfold graphOf
  rw [h.name, h.outputs]
  rcases hadd with ⟨x, hx, halias, hfail⟩ | ⟨heq, hok⟩
  · refine .inl ⟨x, hx, halias, ?_⟩
    rw [hfail]
    rfl
  · refine .inr ⟨by rw [heq], fun g hg => ?_⟩
    cases hadded : addEntries (.empty e.name) 0 e.nodes with
    | error x =>
      rw [hadded] at hg
      cases hg
    | ok g₁ => exact hok g₁ hadded

/-! ### Records -/

theorem readIndex_keeps :
    Yaml.FieldReader.Keeps (fun n => n.aliasesValues = true) NodeEntry.Expands readIndex := by
  rintro behind n e _ hn ⟨hvalues, rfl⟩
  have hread := Yaml.Node.asInt_mirrors hereditary_aliasesValues "int" behind n hn
  unfold readIndex
  rw [n.tag_expanded]
  split
  · exact hread.bind_eq fun _ => .pure ⟨hvalues, rfl⟩
  · apply hread.bind_eq
    intro i
    cases i with
    | none => exact .pure ⟨hvalues, rfl⟩
    | some i => exact .pure ⟨hvalues, rfl⟩

theorem readAttrs_keeps :
    Yaml.FieldReader.Keeps (fun n => n.aliasesValues = true) NodeEntry.Expands readAttrs := by
  rintro behind n e _ hn ⟨-, rfl⟩
  apply (Mirrors.visit behind).bind_eq
  intro _
  refine .pure ⟨?_, rfl⟩
  rintro m hm
  obtain rfl : n = m := Option.some.inj hm
  exact hn

theorem asTexts_rel (behind : Bool) (n : Yaml.Node) (hn : n.aliasesValues = true) :
    Mirrors (Option.Rel (List.Forall₂ Eq)) (n.asTexts behind) (n.expanded.asTexts false) :=
  Yaml.Node.asList_mirrors hereditary_aliasesValues "[]string" Yaml.Node.asText
    (Yaml.Node.asText_rel hereditary_aliasesValues) behind n hn

theorem nodeRecord_keeps : ∀ field ∈ nodeRecord.fields,
    field.2.Keeps (fun n => n.aliasesValues = true) NodeEntry.Expands := by
  have htext := Yaml.Node.asText_rel hereditary_aliasesValues
  have hlists : ∀ vs ws : List String, List.Forall₂ Eq vs ws → vs = ws := by
    intro vs ws hvs
    rwa [List.forall₂_eq_eq_eq] at hvs
  simp only [nodeRecord, List.forall_mem_cons]
  refine ⟨readIndex_keeps, ?_, ?_, ?_, ?_, readAttrs_keeps, fun field hfield => by cases hfield⟩
  · apply Yaml.Node.field_keeps _ _ htext
    rintro e _ s _ ⟨hvalues, rfl⟩ rfl
    exact ⟨hvalues, rfl⟩
  · apply Yaml.Node.field_keeps _ _ htext
    rintro e _ s _ ⟨hvalues, rfl⟩ rfl
    exact ⟨hvalues, rfl⟩
  · apply Yaml.Node.field_keeps _ _ asTexts_rel
    rintro e _ ts us ⟨hvalues, rfl⟩ hts
    obtain rfl := hlists ts us hts
    exact ⟨hvalues, rfl⟩
  · apply Yaml.Node.field_keeps _ _ asTexts_rel
    rintro e _ ts us ⟨hvalues, rfl⟩ hts
    obtain rfl := hlists ts us hts
    exact ⟨hvalues, rfl⟩

theorem readNodes_rel (behind : Bool) (n : Yaml.Node) (hn : n.aliasesValues = true) :
    Mirrors (Option.Rel (List.Forall₂ NodeEntry.Expands)) (readNodes behind n)
      (readNodes false n.expanded) := by
  apply Yaml.Node.asList_mirrors hereditary_aliasesValues _ _ _ behind n hn
  intro behind m hm
  apply Yaml.RecordType.read?_mirrors hereditary_aliasesValues nodeRecord nodeRecord_keeps behind m
    {} {} hm
  refine ⟨?_, rfl⟩
  intro m hm
  cases hm

theorem graphRecord_keeps : ∀ field ∈ graphRecord.fields,
    field.2.Keeps (fun n => n.aliasesValues = true) GraphEntry.Expands := by
  simp only [graphRecord, List.forall_mem_cons]
  refine ⟨?_, ?_, ?_, fun field hfield => by cases hfield⟩
  · apply Yaml.Node.field_keeps _ _ (Yaml.Node.asText_rel hereditary_aliasesValues)
    rintro e d s _ h rfl
    exact ⟨rfl, h.outputs, h.nodes⟩
  · apply Yaml.Node.field_keeps _ _ asTexts_rel
    intro e d ts us h hts
    rw [List.forall₂_eq_eq_eq] at hts
    exact ⟨h.name, hts.symm, h.nodes⟩
  · apply Yaml.Node.field_keeps _ _ readNodes_rel
    intro e d ns ms h hns
    exact ⟨h.name, h.outputs, hns⟩

/-! ### Documents -/

theorem entryOf_expands (n : Yaml.Node) (h : n.aliasesValues = true) :
    (∃ f, f.refusesAliases = true ∧ entryOf n = .error (.failure f)) ∨
      (∃ err, entryOf n = .error err ∧ entryOf n.expanded = .error err) ∨
      ∃ e d, entryOf n = .ok e ∧ entryOf n.expanded = .ok d ∧ e.Expands d := by
  apply Mirrors.run
  apply (Mirrors.visit false).bind_eq
  intro _
  apply Yaml.RecordType.read_mirrors hereditary_aliasesValues graphRecord graphRecord_keeps false n
    {} {} h
  exact ⟨rfl, rfl, .nil⟩

theorem validateNode_expands (n : Yaml.Node) (h : n.aliasesValues = true) :
    (∃ f, f.refusesAliases = true ∧ validateNode (some n) = .error (.unreadable (.failure f))) ∨
      validateNode (some n) = validateNode (some n.expanded) := by
  have hrun : Mirrors Eq
      (do Decoding.visit false; return (← n.data false).getD (.scalar .null))
      (do Decoding.visit false; return (← n.expanded.data false).getD (.scalar .null)) := by
    apply (Mirrors.visit false).bind_eq
    intro _
    exact (Yaml.Node.data_mirrors false n h).bind_eq fun _ => .pure rfl
  unfold validateNode Yaml.Data.ofDocument
  dsimp only
  rcases hrun.run with ⟨f, hf, hd⟩ | ⟨err, hd, he⟩ | ⟨x, _, hd, he, rfl⟩
  · refine .inl ⟨f, hf, ?_⟩
    rw [hd]
    rfl
  · refine .inr ?_
    rw [hd, he]
  · refine .inr ?_
    rw [hd, he]

theorem decodeNode_expands (n : Yaml.Node) (h : n.aliasesValues = true) :
    (∃ f, f.refusesAliases = true ∧ decodeNode (some n) = .error (.unreadable (.failure f))) ∨
      (∃ e d, entryOf n = .ok e ∧ d ∈ e.nodes ∧ d.aliasedAttrs = true ∧
        decodeNode (some n) = .error (.inAttributes d.name .notMapping)) ∨
      (decodeNode (some n) = decodeNode (some n.expanded) ∧
        ∀ g, decodeNode (some n) = .ok g → ∀ e, entryOf n = .ok e → ∀ d ∈ e.nodes,
          d.aliasedAttrs = false) := by
  unfold decodeNode
  dsimp only
  rcases validateNode_expands n h with ⟨f, hf, hvalidate⟩ | hvalidate
  · refine .inl ⟨f, hf, ?_⟩
    rw [hvalidate]
    rfl
  · rw [← hvalidate]
    cases validateNode (some n) with
    | error x => exact .inr (.inr ⟨rfl, fun g hg => by cases hg⟩)
    | ok _ =>
      simp only [bind, Except.bind]
      rcases entryOf_expands n h with ⟨f, hf, he⟩ | ⟨err, he, hd⟩ | ⟨e, d, he, hd, hed⟩
      · refine .inl ⟨f, hf, ?_⟩
        rw [he]
        rfl
      · rw [he, hd]
        exact .inr (.inr ⟨rfl, fun g hg => by cases hg⟩)
      · rw [he, hd]
        rcases graphOf_expands e d hed with ⟨x, hx, halias, hfail⟩ | ⟨heq, hok⟩
        · exact .inr (.inl ⟨e, x, rfl, hx, halias, hfail⟩)
        · refine .inr (.inr ⟨heq, fun g hg e' he' => ?_⟩)
          obtain rfl : e = e' := Except.ok.inj he'
          exact hok g hg

/-- A document describes a graph exactly if the expanded document describes it, no alias is refused,
and the attributes of no node are an alias. -/
theorem decoded_with_aliases_iff (n : Yaml.Node) (h : n.aliasesValues = true) :
    n.expanded.aliasFree = true ∧
      ∀ g, decodeNode (some n) = .ok g ↔
        decodeNode (some n.expanded) = .ok g ∧
          (∀ f, f.refusesAliases = true → decodeNode (some n) ≠ .error (.unreadable (.failure f))) ∧
          ∀ e, entryOf n = .ok e → ∀ d ∈ e.nodes, d.aliasedAttrs = false := by
  refine ⟨n.aliasFree_expanded, fun g => ?_⟩
  rcases decodeNode_expands n h with ⟨f, hf, hfail⟩ | ⟨e, d, he, hd, halias, hfail⟩ | ⟨heq, hok⟩
  · constructor
    · intro hg
      rw [hfail] at hg
      cases hg
    · rintro ⟨-, hrefused, -⟩
      exact absurd hfail (hrefused f hf)
  · constructor
    · intro hg
      rw [hfail] at hg
      cases hg
    · rintro ⟨-, -, hattrs⟩
      have hnot := hattrs e he d hd
      rw [halias] at hnot
      cases hnot
  · constructor
    · intro hg
      refine ⟨heq ▸ hg, fun f _ hrefused => ?_, hok g hg⟩
      rw [hg] at hrefused
      cases hrefused
    · rintro ⟨hg, -, -⟩
      rw [heq]
      exact hg

def aliasedDocument : List UInt8 :=
  Utf8.encode ("\x7bname: N, outputs: &o [a], nodes: [&n \x7bname: s, op: r\x7d, *n, " ++
    "\x7bname: f, op: r, outputs: *o, " ++
    "attrs: \x7bp: &k \x7btuple: &t [&e 1, *e]\x7d, q: *k, r: \x7blist: *t\x7d\x7d\x7d]\x7d")

/-- The tree of the document has aliases, of values only, and describes a graph. -/
def readsAliases (bytes : List UInt8) : Bool :=
  match parse bytes with
  | .ok (some n) => n.aliasesValues && !n.aliasFree && (decodeNode (some n)).isOk
  | _ => false

theorem aliased_document_decoded :
    ∃ n g, parse aliasedDocument = .ok (some n) ∧ n.aliasFree = false ∧
      n.expanded.aliasFree = true ∧ decodeNode (some n) = .ok g ∧
      decodeNode (some n.expanded) = .ok g := by
  have htest : readsAliases aliasedDocument = true := by decide +kernel
  unfold readsAliases at htest
  split at htest
  · next n hn =>
    rw [Bool.and_eq_true, Bool.and_eq_true, Bool.not_eq_true'] at htest
    obtain ⟨⟨hvalues, hfree⟩, hok⟩ := htest
    obtain ⟨hexpanded, hiff⟩ := decoded_with_aliases_iff n hvalues
    cases hg : decodeNode (some n) with
    | error x =>
      rw [hg] at hok
      cases hok
    | ok g => exact ⟨n, g, hn, hfree, hexpanded, hg, ((hiff g).mp hg).1⟩
  · cases htest

def sharedAttributes : List UInt8 :=
  Utf8.encode ("\x7bname: N, nodes: [\x7bname: f, op: exp, attrs: &k \x7bp: 3\x7d\x7d, " ++
    "\x7bname: g, op: exp, attrs: *k\x7d]\x7d")

/-- Only the expanded tree of the document describes a graph; the tree itself has attributes that are
no mapping. -/
def needsExpansion (bytes : List UInt8) : Bool :=
  match parse bytes with
  | .ok (some n) =>
    match decodeNode (some n) with
    | .error (.inAttributes _ .notMapping) =>
      n.aliasesValues && (decodeNode (some n.expanded)).isOk
    | _ => false
  | _ => false

theorem shared_attributes_rejected :
    ∃ n node g, parse sharedAttributes = .ok (some n) ∧ n.aliasesValues = true ∧
      decodeNode (some n) = .error (.inAttributes node .notMapping) ∧
      decodeNode (some n.expanded) = .ok g := by
  have htest : needsExpansion sharedAttributes = true := by decide +kernel
  unfold needsExpansion at htest
  split at htest
  · next n hn =>
    split at htest
    · next node herror =>
      rw [Bool.and_eq_true] at htest
      cases hg : decodeNode (some n.expanded) with
      | error x =>
        rw [hg] at htest
        cases htest.2
      | ok g => exact ⟨n, node, g, hn, htest.1, herror, hg⟩
    · cases htest
  · cases htest

end Document

end Netscribe
