import Netscribe.Document.Graph
import Netscribe.Proofs.ClassName
import Netscribe.Proofs.Construction
import Netscribe.Proofs.SingleLine
import Netscribe.Proofs.SourceLines
import Netscribe.Samples

/-!
# Statements that stay on one line

The code of a statement stays on one line whatever the names, operator types and strings of the graph
are: they are written as symbols or as quoted literals. The comment of a statement is the name of its
node, as it is. So every statement is one line of the source exactly if the name of every node that
puts it into a comment is, that is of every node whose operator is not overridden.
-/

namespace Netscribe

/-- What a pass takes over from its table and its policy stays on one line. -/
structure Options.OnOneLine (o : Options) : Prop where
  callees : ∀ e ∈ o.table.entries, SingleLine e.2.callee
  replacements : ∀ r ∈ o.policy.replacements, SingleLine r.2
  fallback : SingleLine o.policy.fallback
  imports : ∀ line ∈ o.policy.imports, SingleLine line

theorem Options.onOneLine_default (o : Options) (htable : o.table = .default)
    (hpolicy : o.policy = .plain ∨ o.policy = .quant []) : o.OnOneLine := by
  have hcallees : ∀ e ∈ OperatorTable.default.entries, SingleLine e.2.callee := by decide +kernel
  rw [← htable] at hcallees
  rcases hpolicy with h | h
  · exact ⟨hcallees, by rw [h]; decide, by rw [h]; decide, by rw [h]; decide⟩
  · exact ⟨hcallees, by rw [h]; decide +kernel, by rw [h]; decide, by rw [h]; decide⟩

/-! ### Calls -/

theorem singleLine_call (c : Call) (hcallee : SingleLine c.callee.text)
    (hpositional : ∀ a ∈ c.positional, SingleLine a.render)
    (hkeywords : ∀ k ∈ c.keywords, SingleLine k.text) : SingleLine c.text := by
  have harguments : SingleLine c.arguments := by
    unfold Call.arguments
    apply singleLine_join ", " _ (by decide)
    intro s hs
    rcases List.mem_append.mp hs with hs | hs
    · split at hs
      · cases hs
      · rw [List.mem_singleton.mp hs]
        apply singleLine_commaJoin
        intro a ha
        obtain ⟨x, hx, rfl⟩ := List.mem_map.mp ha
        exact hpositional x hx
    · obtain ⟨k, hk, rfl⟩ := List.mem_map.mp hs
      exact hkeywords k hk
  unfold Call.text
  rw [singleLine_append, singleLine_append, singleLine_append]
  exact ⟨⟨⟨hcallee, by decide⟩, harguments⟩, by decide⟩

theorem singleLine_assignment (targets : List String) (rhs : Rhs)
    (htargets : ∀ s ∈ targets, SingleLine s) (hrhs : SingleLine rhs.text) :
    SingleLine (Assignment.text ⟨targets, rhs⟩) := by
  unfold Assignment.text
  rw [singleLine_append, singleLine_append]
  exact ⟨⟨singleLine_commaJoin targets htargets, by decide⟩, hrhs⟩

section

variable (nodes : List Node)

theorem singleLine_symbols (xs : List String) :
    ∀ s ∈ (xs.map (SymbolTable.ofNodes nodes).symbol).map (·.name), SingleLine s := by
  intro s hs
  obtain ⟨x, hx, rfl⟩ := List.mem_map.mp hs
  obtain ⟨y, -, rfl⟩ := List.mem_map.mp hx
  exact singleLine_symbol nodes y

theorem singleLine_symbolAtoms (xs : List String) :
    ∀ a ∈ (xs.map (SymbolTable.ofNodes nodes).symbol).map Atom.symbol, SingleLine a.render := by
  intro a ha
  obtain ⟨x, hx, rfl⟩ := List.mem_map.mp ha
  exact singleLine_symbols nodes xs x.name (List.mem_map_of_mem hx)

/-! ### Overridden operators -/

theorem singleLine_boundText (n : Node) (h : ∀ s ∈ n.rawTexts, SingleLine s) (name : String) :
    SingleLine (Rhs.boundText (Override.renderedBound (.ofNodes nodes) n name)) := by
  unfold Override.renderedBound
  cases hb : Override.bound? n name with
  | none => exact singleLine_empty
  | some v =>
    have hattribute : n.op.attribute? name = some v := by
      unfold Override.bound? at hb
      split at hb
      · cases hb
      · exact hb
    exact singleLine_rendered nodes v (n.rawTexts_of_attribute? h name v hattribute).2

theorem singleLine_boundsText (n : Node) (h : ∀ s ∈ n.rawTexts, SingleLine s) :
    SingleLine (Rhs.boundsText (Override.renderedBound (.ofNodes nodes) n "start")
      (Override.renderedBound (.ofNodes nodes) n "end")
      (Override.renderedBound (.ofNodes nodes) n "step")) := by
  have hbound := singleLine_boundText nodes n h
  unfold Rhs.boundsText
  dsimp only
  rw [singleLine_append, singleLine_append, singleLine_append]
  refine ⟨⟨⟨hbound "start", by decide⟩, hbound "end"⟩, ?_⟩
  split
  · exact singleLine_empty
  · rw [singleLine_append]
    exact ⟨by decide, hbound "step"⟩

theorem singleLine_colons (dim : Nat) : SingleLine (String.join (List.replicate dim ":,")) := by
  unfold SingleLine
  rw [String.toList_join]
  intro c hc
  obtain ⟨s, hs, hc⟩ := List.mem_flatMap.mp hc
  have hcolon : SingleLine ":," := by decide
  rw [List.eq_of_mem_replicate hs] at hc
  exact hcolon c hc

theorem singleLine_override (o : Override) (count : Nat) (n : Node)
    (h : ∀ s ∈ n.rawTexts, SingleLine s) : SingleLine (o.form (.ofNodes nodes) count n).text := by
  have hfirst : SingleLine (Override.first (.ofNodes nodes) n).name := singleLine_symbol nodes _
  have hinputs := singleLine_commaJoin _ (singleLine_symbols nodes n.inputs)
  cases o with
  | input =>
    simp only [Override.form, Rhs.text]
    rw [singleLine_append, singleLine_append]
    exact ⟨⟨by decide, singleLine_decimalText _⟩, by decide⟩
  | const =>
    have hcallee : SingleLine "torch.tensor" := by decide
    exact singleLine_call _ hcallee (fun a ha => by cases ha) (singleLine_keywords nodes n h _)
  | identity => exact hfirst
  | tupleUnpack => exact hfirst
  | tuple =>
    simp only [Override.form, Rhs.text]
    rw [singleLine_append, singleLine_append, singleLine_append]
    refine ⟨⟨⟨by decide, hinputs⟩, ?_⟩, by decide⟩
    split <;> decide
  | list =>
    simp only [Override.form, Rhs.text]
    rw [singleLine_append, singleLine_append]
    exact ⟨⟨by decide, hinputs⟩, by decide⟩
  | index =>
    have hindex : ∀ s ∈ ((n.op.attribute? "index").getD .unset).rawTexts, SingleLine s := by
      cases hv : n.op.attribute? "index" with
      | none => exact fun s hs => by cases hs
      | some v => exact (n.rawTexts_of_attribute? h "index" v hv).2
    simp only [Override.form, Rhs.text]
    rw [singleLine_append, singleLine_append, singleLine_append]
    exact ⟨⟨⟨hfirst, by decide⟩, singleLine_rendered nodes _ hindex⟩, by decide⟩
  | slice =>
    simp only [Override.form, Rhs.text]
    rw [singleLine_append, singleLine_append, singleLine_append, singleLine_append]
    exact ⟨⟨⟨⟨hfirst, by decide⟩, singleLine_colons _⟩, singleLine_boundsText nodes n h⟩, by decide⟩

end

/-! ### The statements of one node -/

namespace Emission

def statements (e : Emission) : List (Statement Assignment) := e.init.toList ++ [e.use]

section

variable (o : Options) (ho : o.OnOneLine) (nodes : List Node) (n : Node)
  (h : ∀ s ∈ n.rawTexts, SingleLine s)

include ho

theorem singleLine_entryCallee : SingleLine (n.entry o.table).callee := by
  unfold Node.entry OperatorTable.lookup
  cases he : o.table.entries.lookup n.op.type with
  | none => exact singleLine_empty
  | some e =>
    obtain ⟨before, after, hsplit, -⟩ := List.lookup_eq_some_iff.mp he
    apply ho.callees (n.op.type, e)
    rw [hsplit]
    simp

theorem singleLine_constructorCallee :
    SingleLine (o.policy.constructor n.op.type (n.entry o.table)).callee := by
  unfold Policy.constructor
  split
  · next callee hr =>
    obtain ⟨before, after, hsplit, -⟩ := List.lookup_eq_some_iff.mp hr
    apply ho.replacements (n.op.type, callee)
    rw [hsplit]
    simp
  · split
    · exact singleLine_entryCallee o ho n
    · exact ho.fallback

theorem singleLine_construction (keywords : List Keyword)
    (hkeywords : ∀ k ∈ keywords, SingleLine k.text) :
    SingleLine (construction o.policy (n.entry o.table) n keywords).code.text := by
  apply singleLine_assignment
  · intro s hs
    rw [List.mem_singleton.mp hs]
    exact singleLine_submodule n.index
  · apply singleLine_call
    · exact singleLine_constructorCallee o ho n
    · intro a ha
      dsimp only at ha
      split at ha
      · rw [List.mem_singleton.mp ha]
        exact singleLine_literal n.op.type
      · cases ha
    · exact hkeywords

include h

theorem singleLine_directForm (targets : List String) (htargets : ∀ s ∈ targets, SingleLine s) :
    SingleLine (directForm (.ofNodes nodes) (n.entry o.table) n targets).use.code.text := by
  apply singleLine_assignment targets _ htargets
  apply singleLine_call
  · have hcallee := singleLine_entryCallee o ho n
    unfold directCallee CallSite.form
    cases CallSite.receiverInput (n.entry o.table) n with
    | none => exact hcallee
    | some x =>
      simp only [Option.map_some, Callee.text]
      rw [singleLine_append, singleLine_append]
      exact ⟨⟨singleLine_symbol nodes x, by decide⟩, hcallee⟩
  · exact singleLine_symbolAtoms nodes _
  · exact singleLine_keywords nodes n h _

omit ho in
theorem singleLine_submoduleForm (targets : List String) (htargets : ∀ s ∈ targets, SingleLine s) :
    SingleLine
      (submoduleForm o.policy (.ofNodes nodes) (n.entry o.table) n targets).use.code.text := by
  apply singleLine_assignment targets _ htargets
  apply singleLine_call
  · exact singleLine_submodule n.index
  · exact singleLine_symbolAtoms nodes _
  · intro k hk
    rcases List.mem_append.mp hk with hk | hk
    · unfold receiverKeyword CallSite.form at hk
      cases hr : CallSite.receiverInput (n.entry o.table) n with
      | none =>
        rw [hr] at hk
        cases hk
      | some x =>
        rw [hr] at hk
        rw [List.mem_singleton.mp hk]
        have hname : SingleLine CallSite.receiverKeyword := by decide
        unfold Keyword.text
        rw [singleLine_append, singleLine_append]
        exact ⟨⟨hname, by decide⟩, singleLine_symbol nodes x⟩
    · exact singleLine_keywords nodes n h _ k hk

/-- The code of the statements of a node stays on one line. -/
theorem singleLine_form (count : Nat) :
    ∀ s ∈ (form o.table o.policy (.ofNodes nodes) count n n.outputNames).statements,
      SingleLine s.code.text := by
  have htargets : ∀ s ∈ n.outputNames, SingleLine s := singleLine_outputNames _ _
  have hconstruction := singleLine_construction o ho n
  unfold form
  cases hov : n.override? with
  | some ov =>
    intro s hs
    rw [List.mem_singleton.mp hs]
    exact singleLine_assignment _ _ htargets (singleLine_override nodes ov count n h)
  | none =>
    dsimp only
    split
    · intro s hs
      rcases List.mem_cons.mp hs with rfl | hs
      · exact hconstruction _ (singleLine_keywords nodes n h _)
      · rw [List.mem_singleton.mp hs]
        apply singleLine_assignment _ _ htargets
        exact singleLine_call _ (singleLine_submodule n.index) (singleLine_symbolAtoms nodes _)
          fun k hk => by cases hk
    · unfold statelessForm
      cases o.policy.dispatch with
      | direct =>
        intro s hs
        rw [List.mem_singleton.mp hs]
        exact singleLine_directForm o ho nodes n h _ htargets
      | submodule =>
        intro s hs
        rcases List.mem_cons.mp hs with rfl | hs
        · exact hconstruction [] fun k hk => by cases hk
        · rw [List.mem_singleton.mp hs]
          exact singleLine_submoduleForm o nodes n h _ htargets

end

/-- The name of a node is a comment of its statements unless its operator is overridden. -/
theorem comments_form_iff (table : OperatorTable) (p : Policy) (t : SymbolTable) (count : Nat)
    (n : Node) (targets : List String) :
    (∀ s ∈ (form table p t count n targets).statements, SingleLine s.comment) ↔
      (n.override? = none → SingleLine n.name) := by
  have hempty := singleLine_empty
  unfold form
  cases n.override? with
  | some ov => simp [statements, statement, hempty]
  | none =>
    dsimp only
    split
    · simp [statements, statefulForm, construction, statement, hempty]
    · unfold statelessForm
      cases p.dispatch with
      | direct => simp [statements, directForm, statement]
      | submodule => simp [statements, submoduleForm, construction, statement, hempty]

end Emission

/-! ### Sources -/

theorem Statement.singleLine_line_iff (s : Statement String) :
    SingleLine s.line ↔ SingleLine s.code ∧ SingleLine s.comment := by
  have hmark : SingleLine " #" := by decide
  unfold Statement.line
  split
  · next h =>
    rw [String.isEmpty_iff.mp h]
    exact (and_iff_left singleLine_empty).symm
  · rw [singleLine_append, singleLine_append, and_iff_left hmark]

/-- Texts that each end with a line feed stay on one line each exactly if they bring along no further
line feed and no carriage return. -/
theorem singleLine_unlines_iff (lines : List String) :
    lines.length ≤ (unlines lines).toList.count '\n' ∧
      (((unlines lines).toList.count '\n' = lines.length ∧ '\r' ∉ (unlines lines).toList) ↔
        ∀ s ∈ lines, SingleLine s) := by
  unfold unlines
  rw [String.toList_join]
  induction lines with
  | nil => simp
  | cons s rest ih =>
    obtain ⟨hle, hiff⟩ := ih
    have hs : SingleLine s ↔ s.toList.count '\n' = 0 ∧ '\r' ∉ s.toList := by
      rw [List.count_eq_zero]
      constructor
      · exact fun h => ⟨fun hmem => (h _ hmem).1 rfl, fun hmem => (h _ hmem).2 rfl⟩
      · rintro ⟨hn, hr⟩ c hc
        exact ⟨fun heq => hn (heq ▸ hc), fun heq => hr (heq ▸ hc)⟩
    have hcount : ((s ++ "\n").toList).count '\n' = s.toList.count '\n' + 1 := by
      rw [String.toList_append, List.count_append]
      rfl
    have hreturn : '\r' ∈ (s ++ "\n").toList ↔ '\r' ∈ s.toList := by
      rw [String.toList_append, List.mem_append]
      exact or_iff_left (by decide)
    simp only [List.map_cons, List.flatMap_cons, List.count_append, List.length_cons,
      List.mem_append, List.forall_mem_cons, hcount, hreturn]
    rw [hs, ← hiff, not_or]
    refine ⟨by omega, ?_, ?_⟩
    · intro hall
      obtain ⟨hsum, hrs, hrrest⟩ := hall
      exact ⟨⟨by omega, hrs⟩, by omega, hrrest⟩
    · intro hall
      obtain ⟨⟨hns, hrs⟩, hnrest, hrrest⟩ := hall
      exact ⟨by omega, hrs, hrrest⟩

namespace Module

theorem length_sourceLines (m : Module String) :
    m.sourceLines.length = m.imports.length + m.inits.length + m.forwards.length + 8 := by
  simp only [sourceLines, headerLines, constructorLines, forwardLines, List.length_append,
    List.length_cons, List.length_map, List.length_nil]
  omega

/-- A source has one line for each import and each statement exactly if they all stay on one line. -/
theorem source_lines_iff (m : Module String) (hclass : SingleLine m.className)
    (himports : ∀ line ∈ m.imports, SingleLine line) (hreturns : SingleLine m.returnList) :
    (m.source.toList.count '\n' = m.imports.length + m.inits.length + m.forwards.length + 8 ∧
        '\r' ∉ m.source.toList) ↔
      ∀ s ∈ m.inits ++ m.forwards, SingleLine s.line := by
  have hindent : SingleLine indent := by decide
  rw [← length_sourceLines, source_eq_lines, (singleLine_unlines_iff m.sourceLines).2,
    forall_mem_sourceLines, List.forall_mem_append]
  simp only [singleLine_append, hindent, true_and]
  constructor
  · intro h
    obtain ⟨-, -, -, -, -, -, hinits, -, -, hforwards, -⟩ := h
    exact ⟨hinits, hforwards⟩
  · intro h
    obtain ⟨hinits, hforwards⟩ := h
    exact ⟨by decide, by decide, himports, ⟨⟨by decide, hclass⟩, by decide⟩, by decide,
      ⟨⟨by decide, hclass⟩, by decide⟩, hinits, by decide, by decide, hforwards, by decide, hreturns⟩

end Module

namespace Naming

theorem singleLine_of_isClassName (name : String) (h : isClassName name = true) :
    SingleLine name := by
  have hmark : ∀ c, continuesIdentifier c = true → c ≠ '\n' ∧ c ≠ '\r' := by
    intro c hc
    constructor
    · rintro rfl
      revert hc
      decide
    · rintro rfl
      revert hc
      decide
  simp only [isClassName, Bool.and_eq_true] at h
  unfold SingleLine
  cases hcs : name.toList with
  | nil => exact fun c hc => by cases hc
  | cons c rest =>
    have hidentifier := h.1
    rw [hcs] at hidentifier
    simp only [isIdentifier, Bool.and_eq_true, List.all_eq_true] at hidentifier
    rw [unbroken_cons]
    refine ⟨hmark c ?_, fun d hd => hmark d (hidentifier.2 d hd)⟩
    simp [continuesIdentifier, hidentifier.1]

theorem singleLine_className (name fallback : String) (h : SingleLine fallback) :
    SingleLine (className name fallback) := by
  rw [className_eq]
  split
  · next hname => exact singleLine_of_isClassName _ hname
  · split
    · next hname => exact singleLine_of_isClassName _ hname
    · exact h

end Naming

namespace Generation

theorem mem_statements_iff (o : Options) (g : Graph) (s : Statement Assignment) :
    s ∈ (moduleOf o g).inits ++ (moduleOf o g).forwards ↔
      ∃ (k : Nat) (n : Node), g.nodes[k]? = some n ∧
        s ∈ (emission o (g.nodes.take k) n).statements := by
  have hforward : s ∈ (moduleOf o g).forwards ↔
      ∃ (k : Nat) (n : Node), g.nodes[k]? = some n ∧ s = (emission o (g.nodes.take k) n).use := by
    rw [List.mem_iff_getElem?]
    simp only [forwards_getElem?, Option.map_eq_some_iff]
    constructor
    · intro hall
      obtain ⟨k, n, hn, rfl⟩ := hall
      exact ⟨k, n, hn, rfl⟩
    · intro hall
      obtain ⟨k, n, hn, rfl⟩ := hall
      exact ⟨k, n, hn, rfl⟩
  rw [List.mem_append, mem_inits_iff, hforward]
  simp only [Emission.statements, List.mem_append, Option.mem_toList, List.mem_singleton]
  constructor
  · rintro (⟨k, n, hn, hs⟩ | ⟨k, n, hn, hs⟩)
    · exact ⟨k, n, hn, .inl hs⟩
    · exact ⟨k, n, hn, .inr hs⟩
  · rintro ⟨k, n, hn, hs | hs⟩
    · exact .inl ⟨k, n, hn, hs⟩
    · exact .inr ⟨k, n, hn, hs⟩

theorem singleLine_code (o : Options) (ho : o.OnOneLine) (g : Graph)
    (hraw : ∀ n ∈ g.nodes, ∀ s ∈ n.rawTexts, SingleLine s) :
    ∀ s ∈ (moduleOf o g).inits ++ (moduleOf o g).forwards, SingleLine s.code.text := by
  intro s hs
  obtain ⟨k, n, hn, hs⟩ := (mem_statements_iff o g s).mp hs
  exact Emission.singleLine_form o ho _ n (hraw n (List.mem_of_getElem? hn)) _ s hs

theorem comments_iff (o : Options) (g : Graph) :
    (∀ s ∈ (moduleOf o g).inits ++ (moduleOf o g).forwards, SingleLine s.comment) ↔
      ∀ n ∈ g.nodes, n.override? = none → SingleLine n.name := by
  have hnode := fun (k : Nat) (n : Node) => Emission.comments_form_iff o.table o.policy
    (.ofNodes (g.nodes.take k ++ [n])) (inputCount (g.nodes.take k)) n n.outputNames
  constructor
  · intro h n hn
    obtain ⟨k, hk⟩ := List.mem_iff_getElem?.mp hn
    exact (hnode k n).mp fun s hs => h s ((mem_statements_iff o g s).mpr ⟨k, n, hk, hs⟩)
  · intro h s hs
    obtain ⟨k, n, hk, hs⟩ := (mem_statements_iff o g s).mp hs
    exact (hnode k n).mpr (h n (List.mem_of_getElem? hk)) s hs

/-- The code of every statement stays on one line. Every statement does, and the source has one line
for each, exactly if the name of every node whose operator is not overridden does. -/
theorem statements_on_one_line_iff (o : Options) (g : Graph) (m : Module Assignment)
    (htable : o.table = .default) (hpolicy : o.policy = .plain ∨ o.policy = .quant [])
    (hraw : ∀ n ∈ g.nodes, ∀ s ∈ n.rawTexts, SingleLine s) (h : build o g = .ok m) :
    (∀ s ∈ m.inits ++ m.forwards, SingleLine s.code.text) ∧
      ((∀ s ∈ m.inits ++ m.forwards, SingleLine (s.map Assignment.text).line) ↔
        ∀ n ∈ g.nodes, n.override? = none → SingleLine n.name) ∧
      ∃ source, generate o g = .ok source ∧
        ((source.toList.count '\n' = m.imports.length + m.inits.length + m.forwards.length + 8 ∧
            '\r' ∉ source.toList) ↔
          ∀ n ∈ g.nodes, n.override? = none → SingleLine n.name) := by
  have ho := o.onOneLine_default htable hpolicy
  have hgenerate : generate o g = .ok (m.map Assignment.text).source := by
    unfold generate
    rw [h]
    rfl
  obtain rfl := (build_yields o g).value h
  have hcode := singleLine_code o ho g hraw
  have hlines : (∀ s ∈ (moduleOf o g).inits ++ (moduleOf o g).forwards,
      SingleLine (s.map Assignment.text).line) ↔
        ∀ n ∈ g.nodes, n.override? = none → SingleLine n.name := by
    rw [← comments_iff o g]
    apply forall₂_congr
    intro s hs
    rw [Statement.singleLine_line_iff]
    exact and_iff_right (hcode s hs)
  have himports : ∀ line ∈ ((moduleOf o g).map Assignment.text).imports, SingleLine line := by
    change ∀ line ∈ "import torch" :: o.policy.imports, SingleLine line
    rw [List.forall_mem_cons]
    exact ⟨by decide, ho.imports⟩
  have hreturns : SingleLine ((moduleOf o g).map Assignment.text).returnList := by
    apply singleLine_commaJoin
    intro s hs
    obtain ⟨x, -, rfl⟩ := List.mem_map.mp hs
    exact singleLine_symbol g.nodes x
  have hsource := Module.source_lines_iff ((moduleOf o g).map Assignment.text)
    (Naming.singleLine_className _ _ (by decide)) himports hreturns
  simp only [Module.map, ← List.map_append, List.forall_mem_map, List.length_map] at hsource
  refine ⟨hcode, hlines, _, hgenerate, ?_⟩
  rw [← hlines]
  exact hsource

def brokenTexts : Graph :=
  Sample.graphOf "Padded" ["t1"]
    [⟨"the\ninput", "input", [], [], ["t0"]⟩,
     ⟨"pad", "pad", [("pad", .ints [1, 1]), ("mode", .str "a\r\nb")], ["t0"], ["t1"]⟩]

theorem broken_texts_on_one_line :
    ∃ m source, build { policy := .quant [] } brokenTexts = .ok m ∧ m.inits.length = 1 ∧
      m.forwards.length = 2 ∧
      (∀ s ∈ m.inits ++ m.forwards, SingleLine (s.map Assignment.text).line) ∧
      generate { policy := .quant [] } brokenTexts = .ok source ∧
      source.toList.count '\n' = 13 ∧ '\r' ∉ source.toList := by
  have hnames : ∀ n ∈ brokenTexts.nodes, n.override? = none → SingleLine n.name := by decide
  have hraw : ∀ n ∈ brokenTexts.nodes, ∀ s ∈ n.rawTexts, SingleLine s := by decide
  obtain ⟨-, hlines, source, hsource, hcount⟩ :=
    statements_on_one_line_iff { policy := .quant [] } brokenTexts _ rfl (.inr rfl) hraw rfl
  exact ⟨_, source, rfl, rfl, rfl, hlines.mpr hnames, hsource, hcount.mpr hnames⟩

def brokenNameDocument : List UInt8 :=
  Utf8.encode ("\x7bname: N, outputs: [b], nodes: [\x7bname: x, op: input, outputs: [a]\x7d, " ++
    "\x7bname: \"f\\nimport os\", op: exp, inputs: [a], outputs: [b]\x7d]\x7d")

def writesLine (bytes : List UInt8) (line : String) : Bool :=
  match Document.decode bytes with
  | .error _ => false
  | .ok g =>
    match build {} g with
    | .error _ => false
    | .ok m => decide (∀ n ∈ g.nodes, ∀ t ∈ n.rawTexts, SingleLine t) &&
        decide (∃ s ∈ m.forwards, (s.map Assignment.text).line = line)

theorem broken_name_ends_its_comment :
    ∃ g m s, Document.decode brokenNameDocument = .ok g ∧
      (∀ n ∈ g.nodes, ∀ t ∈ n.rawTexts, SingleLine t) ∧ build {} g = .ok m ∧ s ∈ m.forwards ∧
      (s.map Assignment.text).line =
        "self.output_module_1 = torch.exp(self.output_module_0) #f\nimport os" ∧
      ¬ SingleLine (s.map Assignment.text).line := by
  have htest : writesLine brokenNameDocument
      "self.output_module_1 = torch.exp(self.output_module_0) #f\nimport os" = true := by
    decide +kernel
  unfold writesLine at htest
  split at htest
  · cases htest
  · next g hg =>
    split at htest
    · cases htest
    · next m hm =>
      rw [Bool.and_eq_true, decide_eq_true_eq, decide_eq_true_eq] at htest
      obtain ⟨hraw, s, hs, hline⟩ := htest
      refine ⟨g, m, s, hg, hraw, hm, hs, hline, ?_⟩
      rw [hline]
      decide

end Generation

end Netscribe
