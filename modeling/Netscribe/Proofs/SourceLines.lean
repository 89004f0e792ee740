import Mathlib.Data.List.Basic
import Netscribe.Source

/-!
# Sources and the parts they are made from

Each section of a source is whole lines, and the sections one after the other are `sourceLines`. They
are the lines of the source if none of them is broken. The parts can be found again from the end:
statements are indented further than the two method headers, so each block of statements reaches back
to the line of its method, whatever the statements and imports are.
-/

namespace Netscribe

/-- The lines of a text: what stands before, between and after its line feeds. -/
def linesOf (s : String) : List String := (s.toList.splitOn '\n').map String.ofList

/-- The text of some lines, each of which ends with a line feed. -/
def unlines (lines : List String) : String := String.join (lines.map (· ++ "\n"))

theorem unlines_nil : unlines [] = "" := rfl

theorem unlines_cons (line : String) (lines : List String) :
    unlines (line :: lines) = line ++ "\n" ++ unlines lines := String.join_cons

theorem unlines_append (lines lines' : List String) :
    unlines (lines ++ lines') = unlines lines ++ unlines lines' := by
  unfold unlines
  rw [List.map_append, String.join_append]

theorem toList_unlines (lines : List String) :
    (unlines lines).toList = ['\n'].intercalate ((lines ++ [""]).map String.toList) := by
  induction lines with
  | nil => rfl
  | cons s rest ih =>
    have hne : (rest ++ [""]).map String.toList ≠ [] := by simp
    rw [List.cons_append, List.map_cons, List.intercalate_cons_of_ne_nil hne, ← ih, unlines_cons]
    simp

theorem linesOf_unlines (lines : List String) (h : ∀ s ∈ lines, '\n' ∉ s.toList) :
    linesOf (unlines lines) = lines ++ [""] := by
  have hpieces : ∀ piece ∈ (lines ++ [""]).map String.toList, '\n' ∉ piece := by
    rw [List.forall_mem_map, List.forall_mem_append]
    exact ⟨h, by decide⟩
  rw [linesOf, toList_unlines, List.splitOn_intercalate '\n' hpieces (by simp), List.map_map]
  simp

/-- A block of items with a property goes back to the last item without it. -/
theorem append_block_inj {α : Type} (p : α → Prop) (as bs xs ys : List α) (s : α)
    (hxs : ∀ x ∈ xs, p x) (hys : ∀ y ∈ ys, p y) (hs : ¬ p s) (h : as ++ s :: xs = bs ++ s :: ys) :
    as = bs ∧ xs = ys := by
  rcases List.append_eq_append_iff.mp h with ⟨cs, rfl, hcs⟩ | ⟨cs, rfl, hcs⟩
  · cases cs with
    | nil => simp_all
    | cons c cs =>
      cases hcs
      exact absurd (hxs s (by simp)) hs
  · cases cs with
    | nil => simp_all
    | cons c cs =>
      cases hcs
      exact absurd (hys s (by simp)) hs

namespace Module

/-! ### The lines of the sections -/

def indent : String := "        "

def headerLines (m : Module String) : List String :=
  "# GENERATED BY NNDCT, DO NOT EDIT!" :: "" :: m.imports
    ++ ["class " ++ m.className ++ "(torch.nn.Module):"]

def constructorLines (m : Module String) : List String :=
  "    def __init__(self):" :: (indent ++ "super(" ++ m.className ++ ", self).__init__()")
    :: m.inits.map (fun s => indent ++ s.line)

def forwardLines (m : Module String) : List String :=
  "" :: "    def forward(self, *args):" :: m.forwards.map (fun s => indent ++ s.line)
    ++ [indent ++ "return " ++ m.returnList]

def sourceLines (m : Module String) : List String :=
  m.headerLines ++ m.constructorLines ++ m.forwardLines

/-- Statements that start with their line feed are whole lines once a further one follows. -/
theorem each_line (ss : List (Statement String)) (text : String) :
    each ss (fun s => "\n        " ++ s.line) ++ ("\n" ++ text) =
      "\n" ++ (unlines (ss.map fun s => indent ++ s.line) ++ text) := by
  have hbreak : "\n        " = "\n" ++ indent := by decide
  unfold each
  induction ss with
  | nil => simp only [List.map_nil, String.join_nil, unlines_nil, String.empty_append]
  | cons s rest ih =>
    simp only [List.map_cons, String.join_cons, unlines_cons, String.append_assoc, ih]
    simp only [hbreak, String.append_assoc]

theorem header_eq_lines (m : Module String) : m.header = unlines m.headerLines := by
  have himports : each m.imports (fun line => line ++ "\n") = unlines m.imports := rfl
  have hopening : "# GENERATED BY NNDCT, DO NOT EDIT!\n\n" =
      "# GENERATED BY NNDCT, DO NOT EDIT!" ++ "\n" ++ ("" ++ "\n") := by decide
  have hclass : "(torch.nn.Module):\n" = "(torch.nn.Module):" ++ "\n" := by decide
  unfold header headerLines
  simp only [hopening, hclass, himports, List.cons_append, unlines_cons, unlines_append, unlines_nil,
    String.append_assoc, String.append_empty]

theorem constructor_eq_lines (m : Module String) : m.constructor = unlines m.constructorLines := by
  have hmethod : "    def __init__(self):\n" = "    def __init__(self):" ++ "\n" := by decide
  have hsuper : "        super(" = indent ++ "super(" := by decide
  have hinits := each_line m.inits ""
  simp only [String.append_empty] at hinits
  unfold constructor constructorLines
  simp only [hmethod, hsuper, unlines_cons, String.append_assoc, hinits]

theorem forward_eq_lines (m : Module String) : m.forward = unlines m.forwardLines := by
  have hmethod : "\n    def forward(self, *args):" = "" ++ "\n" ++ "    def forward(self, *args):" := by
    decide
  have hreturn : "\n        return " = "\n" ++ (indent ++ "return ") := by decide
  unfold forward forwardLines
  simp only [hmethod, hreturn, List.cons_append, unlines_cons, unlines_append, unlines_nil,
    String.append_assoc, String.append_empty, each_line]

theorem source_eq_lines (m : Module String) : m.source = unlines m.sourceLines := by
  rw [source, sections, sourceLines, unlines_append, unlines_append, ← header_eq_lines,
    ← constructor_eq_lines, ← forward_eq_lines]
  simp only [String.join_cons, String.join_nil, String.append_empty, String.append_assoc]

/-! ### The lines of a source -/

theorem forall_mem_sourceLines (m : Module String) (p : String → Prop) :
    (∀ line ∈ m.sourceLines, p line) ↔
      p "# GENERATED BY NNDCT, DO NOT EDIT!" ∧ p "" ∧ (∀ line ∈ m.imports, p line) ∧
      p ("class " ++ m.className ++ "(torch.nn.Module):") ∧ p "    def __init__(self):" ∧
      p (indent ++ "super(" ++ m.className ++ ", self).__init__()") ∧
      (∀ s ∈ m.inits, p (indent ++ s.line)) ∧ p "" ∧ p "    def forward(self, *args):" ∧
      (∀ s ∈ m.forwards, p (indent ++ s.line)) ∧ p (indent ++ "return " ++ m.returnList) := by
  simp only [sourceLines, headerLines, constructorLines, forwardLines, List.forall_mem_append,
    List.forall_mem_cons, List.forall_mem_map, List.cons_append, List.not_mem_nil, false_implies,
    implies_true, and_true, and_assoc]

/-- No part of the module brings along a line feed. -/
structure UnbrokenLines (m : Module String) : Prop where
  className : '\n' ∉ m.className.toList
  imports : ∀ line ∈ m.imports, '\n' ∉ line.toList
  inits : ∀ s ∈ m.inits, '\n' ∉ s.line.toList
  forwards : ∀ s ∈ m.forwards, '\n' ∉ s.line.toList
  returns : '\n' ∉ m.returnList.toList

theorem UnbrokenLines.sourceLines {m : Module String} (h : m.UnbrokenLines) :
    ∀ line ∈ m.sourceLines, '\n' ∉ line.toList := by
  have happend : ∀ s t : String, '\n' ∉ (s ++ t).toList ↔ '\n' ∉ s.toList ∧ '\n' ∉ t.toList := by
    intro s t
    rw [String.toList_append, List.mem_append, not_or]
  have hindent : '\n' ∉ indent.toList := by decide
  rw [forall_mem_sourceLines]
  simp only [happend]
  refine ⟨by decide, by decide, h.imports, ⟨⟨by decide, h.className⟩, by decide⟩, by decide,
    ⟨⟨⟨hindent, by decide⟩, h.className⟩, by decide⟩, ?_, by decide, by decide, ?_,
    ⟨hindent, by decide⟩, h.returns⟩
  · exact fun s hs => ⟨hindent, h.inits s hs⟩
  · exact fun s hs => ⟨hindent, h.forwards s hs⟩

def Indented (line : String) : Prop := indent.toList <+: line.toList

instance (line : String) : Decidable (Indented line) :=
  inferInstanceAs (Decidable (indent.toList <+: line.toList))

theorem indented_append (text : String) : Indented (indent ++ text) := by
  rw [Indented, String.toList_append]
  exact List.prefix_append ..

theorem indented_lines (ss : List (Statement String)) :
    ∀ line ∈ ss.map (fun s => indent ++ s.line), Indented line := by
  rw [List.forall_mem_map]
  exact fun s _ => indented_append s.line

theorem map_indent_line (ss : List (Statement String)) :
    ss.map (fun s => indent ++ s.line) = (ss.map Statement.line).map (indent ++ ·) :=
  (List.map_map ..).symm

theorem map_line_inj (ss ss' : List (Statement String))
    (h : ss.map (fun s => indent ++ s.line) = ss'.map (fun s => indent ++ s.line)) :
    ss.map Statement.line = ss'.map Statement.line := by
  have hinj : Function.Injective (indent ++ ·) := fun s t hst => (String.append_right_inj indent).mp hst
  rw [map_indent_line, map_indent_line] at h
  exact List.map_injective_iff.mpr hinj h

/-- The lines of a module determine its parts. -/
theorem parts_of_sourceLines (a b : Module String) (h : a.sourceLines = b.sourceLines) :
    a.className = b.className ∧ a.imports = b.imports ∧
      a.inits.map Statement.line = b.inits.map Statement.line ∧
      a.forwards.map Statement.line = b.forwards.map Statement.line ∧ a.returnList = b.returnList := by
  have hforward : ¬ Indented "    def forward(self, *args):" := by decide
  have hinit : ¬ Indented "    def __init__(self):" := by decide
  -- the two blocks of a module, each with the line that it goes back to
  have hblocks : ∀ m : Module String, m.sourceLines =
      ((["# GENERATED BY NNDCT, DO NOT EDIT!", ""] ++ m.imports ++
          ["class " ++ m.className ++ "(torch.nn.Module):"]) ++
        "    def __init__(self):" :: ((indent ++ ("super(" ++ m.className ++ ", self).__init__()")) ::
          m.inits.map fun s => indent ++ s.line) ++ [""]) ++
        "    def forward(self, *args):" :: (m.forwards.map (fun s => indent ++ s.line) ++
          [indent ++ ("return " ++ m.returnList)]) := by
    intro m
    simp [sourceLines, headerLines, constructorLines, forwardLines, String.append_assoc]
  have hbody : ∀ m : Module String, ∀ line ∈ m.forwards.map (fun s => indent ++ s.line) ++
      [indent ++ ("return " ++ m.returnList)], Indented line := by
    intro m
    rw [List.forall_mem_append, List.forall_mem_singleton]
    exact ⟨indented_lines m.forwards, indented_append _⟩
  have hconstructor : ∀ m : Module String, ∀ line ∈
      (indent ++ ("super(" ++ m.className ++ ", self).__init__()")) ::
        m.inits.map (fun s => indent ++ s.line), Indented line := by
    intro m
    rw [List.forall_mem_cons]
    exact ⟨indented_append _, indented_lines m.inits⟩
  rw [hblocks a, hblocks b] at h
  obtain ⟨hupper, hlower⟩ := append_block_inj Indented _ _ _ _ _ (hbody a) (hbody b) hforward h
  rw [List.append_left_inj] at hupper
  obtain ⟨hheader, hinits⟩ := append_block_inj Indented _ _ _ _ _ (hconstructor a) (hconstructor b)
    hinit hupper
  obtain ⟨himports, hclass⟩ := List.append_inj' hheader rfl
  obtain ⟨hforwards, hreturn⟩ := List.append_inj' hlower rfl
  rw [List.append_right_inj] at himports
  rw [List.cons.injEq, String.append_left_inj, String.append_right_inj] at hclass
  rw [List.cons.injEq, String.append_right_inj, String.append_right_inj] at hreturn
  exact ⟨hclass.1, himports, map_line_inj _ _ (List.cons.inj hinits).2,
    map_line_inj _ _ hforwards, hreturn.1⟩

/-- The lines of a source are the header, the imports, the class with its constructor and the forward
method with its return. So two modules have the same source exactly if they have the same parts. -/
theorem source_shows_parts (a : Module String) (ha : a.UnbrokenLines) :
    linesOf a.source =
        ["# GENERATED BY NNDCT, DO NOT EDIT!", ""] ++ a.imports ++
        ["class " ++ a.className ++ "(torch.nn.Module):",
          "    def __init__(self):",
          "        super(" ++ a.className ++ ", self).__init__()"] ++
        a.inits.map (fun s => "        " ++ s.line) ++
        ["", "    def forward(self, *args):"] ++
        a.forwards.map (fun s => "        " ++ s.line) ++
        ["        return " ++ a.returnList, ""] ∧
      ∀ b : Module String, b.UnbrokenLines → (a.source = b.source ↔
        a.className = b.className ∧ a.imports = b.imports ∧
          a.inits.map Statement.line = b.inits.map Statement.line ∧
          a.forwards.map Statement.line = b.forwards.map Statement.line ∧
          a.returnList = b.returnList) := by
  have hlines : ∀ m : Module String, m.UnbrokenLines → linesOf m.source = m.sourceLines ++ [""] := by
    intro m hm
    rw [source_eq_lines]
    exact linesOf_unlines m.sourceLines hm.sourceLines
  refine ⟨?_, fun b hb => ⟨fun h => ?_, fun hparts => ?_⟩⟩
  · rw [hlines a ha]
    simp [sourceLines, headerLines, constructorLines, forwardLines, indent]
  · have hsame : a.sourceLines ++ [""] = b.sourceLines ++ [""] := by
      rw [← hlines a ha, ← hlines b hb, h]
    exact parts_of_sourceLines a b (List.append_cancel_right hsame)
  · obtain ⟨hclass, himports, hinits, hforwards, hreturns⟩ := hparts
    simp only [source_eq_lines, sourceLines, headerLines, constructorLines, forwardLines,
      map_indent_line, hclass, himports, hinits, hforwards, hreturns]

def disguised : Module String :=
  { className := "Net"
    variant := "plain"
    imports := ["", "class Net(torch.nn.Module):", "    def __init__(self):", "        x = 1", "",
      "    def forward(self, *args):"]
    inits := []
    forwards := [⟨"f", 0, "return 1", ""⟩, ⟨"g", 1, "", ""⟩]
    returns := some ["self.output_module_0", "self.output_module_1"] }

theorem disguised_shows_parts :
    disguised.UnbrokenLines ∧ (linesOf disguised.source).length = 17 ∧
      ∀ b : Module String, b.UnbrokenLines → b.imports = [] → disguised.source ≠ b.source := by
  have hunbroken : disguised.UnbrokenLines := ⟨by decide, by decide, by decide, by decide, by decide⟩
  obtain ⟨hlines, hparts⟩ := source_shows_parts disguised hunbroken
  refine ⟨hunbroken, by rw [hlines]; rfl, fun b hb himports h => ?_⟩
  have hsame := ((hparts b hb).mp h).2.1
  rw [himports] at hsame
  cases hsame

end Module

end Netscribe
