import Netscribe.Proofs.AttributeGrammar

/-!
# Attribute values as trees

Every value but one left open is written as a tree: null, truth values and numbers as plain scalars,
texts as quoted scalars under the key of their kind, tuples and lists as sequences of the trees of
their items. The tree denotes the value, so it is decoded to it. Texts that look like something else
keep their kind, because the key decides and the scalar is not looked at.
-/

namespace Netscribe

/-! ### Values of documents -/

namespace Value

/-- The values that a document can hold: integers have 64 bits, and no value is left open. -/
inductive Storable : Value → Prop
  | none : Storable .none
  | bool (b : Bool) : Storable (.bool b)
  | int (i : Int) (hleast : -(Yaml.Scalar.signedEnd : Int) ≤ i) (hmost : i < Yaml.Scalar.signedEnd) :
      Storable (.int i)
  | float (x : Binary64) : Storable (.float x)
  | str (s : String) : Storable (.str s)
  | expr (s : String) : Storable (.expr s)
  | tensor (name : String) : Storable (.tensor name)
  | tuple (items : List Value) (hitems : ∀ v ∈ items, Storable v) : Storable (.tuple items)
  | list (items : List Value) (hitems : ∀ v ∈ items, Storable v) : Storable (.list items)

mutual

def hasNaN : Value → Bool
  | float x => x.isNaN
  | tuple items => hasNaNAmong items
  | list items => hasNaNAmong items
  | _ => false

def hasNaNAmong : List Value → Bool
  | [] => false
  | v :: rest => hasNaN v || hasNaNAmong rest

end

mutual

/-- The value with the same NaN in place of each. -/
def oneNaN : Value → Value
  | float x => float x.oneNaN
  | tuple items => tuple (oneNaNAll items)
  | list items => list (oneNaNAll items)
  | v => v

def oneNaNAll : List Value → List Value
  | [] => []
  | v :: rest => oneNaN v :: oneNaNAll rest

end

theorem oneNaNAll_eq (items : List Value) (hitems : ∀ v ∈ items, v.hasNaN = false → v.oneNaN = v)
    (h : hasNaNAmong items = false) : oneNaNAll items = items := by
  induction items with
  | nil => rfl
  | cons v rest ih =>
    rw [List.forall_mem_cons] at hitems
    rw [hasNaNAmong, Bool.or_eq_false_iff] at h
    rw [oneNaNAll, hitems.1 h.1, ih hitems.2 h.2]

theorem Storable.oneNaN_eq {v : Value} (hv : v.Storable) : v.hasNaN = false → v.oneNaN = v := by
  induction hv with
  | float x =>
    intro h
    have hsame : x.oneNaN = x := if_neg (Bool.eq_false_iff.mp h)
    rw [oneNaN, hsame]
  | tuple items _ ih =>
    intro h
    rw [oneNaN, oneNaNAll_eq items ih h]
  | list items _ ih =>
    intro h
    rw [oneNaN, oneNaNAll_eq items ih h]
  | _ => exact fun _ => rfl

end Value

namespace Document

open Yaml (Scalar)

/-! ### Trees -/

def keyed (line keyLine : Nat) (key : String) (n : Yaml.Node) : Yaml.Node :=
  .mapping line Yaml.Tag.map [(.ofScalar keyLine "" true key, n)]

/-- The trees that a value is written as, with no tags but the keys of mappings. A list is written with
its key or without. -/
inductive Written : Value → Yaml.Node → Prop
  | none (line : Nat) : Written .none (.ofScalar line "" true "null")
  | bool (line : Nat) (b : Bool) :
      Written (.bool b) (.ofScalar line "" true (if b then "true" else "false"))
  | int (line : Nat) (i : Int) : Written (.int i) (.ofScalar line "" true (decimalText i))
  | float (line : Nat) (x : Binary64) :
      Written (.float x) (.ofScalar line "" true (x.render Scalar.floatLayout))
  | str (line keyLine textLine : Nat) (s : String) :
      Written (.str s) (keyed line keyLine "str" (.ofScalar textLine "" false s))
  | expr (line keyLine textLine : Nat) (s : String) :
      Written (.expr s) (keyed line keyLine "expr" (.ofScalar textLine "" false s))
  | tensor (line keyLine textLine : Nat) (name : String) :
      Written (.tensor name) (keyed line keyLine "tensor" (.ofScalar textLine "" false name))
  | tuple (line keyLine itemsLine : Nat) {items : List Value} {nodes : List Yaml.Node}
      (h : List.Forall₂ Written items nodes) :
      Written (.tuple items) (keyed line keyLine "tuple" (.sequence itemsLine Yaml.Tag.seq nodes))
  | list (line : Nat) {items : List Value} {nodes : List Yaml.Node}
      (h : List.Forall₂ Written items nodes) :
      Written (.list items) (.sequence line Yaml.Tag.seq nodes)
  | keyedList (line keyLine itemsLine : Nat) {items : List Value} {nodes : List Yaml.Node}
      (h : List.Forall₂ Written items nodes) :
      Written (.list items) (keyed line keyLine "list" (.sequence itemsLine Yaml.Tag.seq nodes))

theorem exists_written {v : Value} (hv : v.Storable) : ∃ n, Written v n := by
  induction hv with
  | none => exact ⟨_, .none 1⟩
  | bool b => exact ⟨_, .bool 1 b⟩
  | int i => exact ⟨_, .int 1 i⟩
  | float x => exact ⟨_, .float 1 x⟩
  | str s => exact ⟨_, .str 1 1 1 s⟩
  | expr s => exact ⟨_, .expr 1 1 1 s⟩
  | tensor name => exact ⟨_, .tensor 1 1 1 name⟩
  | tuple items _ ih =>
    obtain ⟨nodes, hnodes⟩ := (exists_forall₂_iff _ _).mpr ih
    exact ⟨_, .tuple 1 1 1 hnodes⟩
  | list items _ ih =>
    obtain ⟨nodes, hnodes⟩ := (exists_forall₂_iff _ _).mpr ih
    exact ⟨_, .list 1 hnodes⟩

def Stands (n : Yaml.Node) (v : Value) : Prop := n.WrittenOut ∧ Denotes n v

theorem stands_plain (line : Nat) (text : String) (v : Value)
    (h : spelled? text (Scalar.ofSpelling true text) = some v) :
    Stands (.ofScalar line "" true text) v := by
  have hout : (Yaml.Node.ofScalar line "" true text).WrittenOut := .scalar ..
  exact ⟨hout, (valueOf_eq_ok hout v).mp ((valueOf_plain line text v).mpr h)⟩

theorem writtenOut_keyed (line keyLine : Nat) (key : String) {n : Yaml.Node} (h : n.WrittenOut) :
    (keyed line keyLine key n).WrittenOut := by
  refine .mapping _ _ _ ?_ ?_
  · intro e he
    rw [List.mem_singleton.mp he]
    exact .scalar ..
  · intro e he
    rw [List.mem_singleton.mp he]
    exact h

theorem stands_quoted (line keyLine textLine : Nat) (key text : String) (make : String → Value)
    (hkey : (key, make) ∈ textKeys) :
    Stands (keyed line keyLine key (.ofScalar textLine "" false text)) (make text) := by
  have htag : Yaml.Tag.str ≠ Yaml.Tag.null := by decide
  exact ⟨writtenOut_keyed _ _ _ (.scalar ..), .text hkey htag⟩

theorem stands_sequence (line : Nat) {nodes : List Yaml.Node} {vs : List Value}
    (h : List.Forall₂ Stands nodes vs) : Stands (.sequence line Yaml.Tag.seq nodes) (.list vs) := by
  have hout : ∀ n ∈ nodes, n.WrittenOut := by
    intro n hn
    obtain ⟨v, hv⟩ := (exists_forall₂_iff _ _).mp ⟨vs, h⟩ n hn
    exact hv.1
  exact ⟨.sequence _ _ _ hout, .sequence (h.imp fun n v hv => hv.2)⟩

theorem stands_items (line keyLine itemsLine : Nat) (key : String) (make : List Value → Value)
    (hkey : (key, make) ∈ itemKeys) {nodes : List Yaml.Node} {vs : List Value}
    (h : List.Forall₂ Stands nodes vs) :
    Stands (keyed line keyLine key (.sequence itemsLine Yaml.Tag.seq nodes)) (make vs) := by
  have hsequence := stands_sequence itemsLine h
  exact ⟨writtenOut_keyed _ _ _ hsequence.1, .items hkey (h.imp fun n v hv => hv.2)⟩

theorem forall₂_stands {items : List Value} {nodes : List Yaml.Node}
    (hall : List.Forall₂ Written items nodes)
    (h : ∀ v ∈ items, ∀ n, Written v n → Stands n v.oneNaN) :
    List.Forall₂ Stands nodes (Value.oneNaNAll items) := by
  induction hall with
  | nil => exact .nil
  | cons hv _ ih =>
    rw [List.forall_mem_cons] at h
    exact .cons (h.1 _ hv) (ih h.2)

/-- A tree stands for the value that it is written for. -/
theorem stands_of_written {v : Value} (hv : v.Storable) : ∀ n, Written v n → Stands n v.oneNaN := by
  induction hv with
  | none =>
    intro n hn
    cases hn
    exact stands_plain _ _ _ rfl
  | bool b =>
    intro n hn
    cases hn
    refine stands_plain _ _ _ ?_
    cases b <;> rfl
  | int i hleast hmost =>
    intro n hn
    cases hn
    refine stands_plain _ _ _ ?_
    rw [Scalar.ofSpelling_decimalText true i hleast (by omega)]
    exact if_pos hmost
  | float x =>
    intro n hn
    cases hn
    refine stands_plain _ _ _ ?_
    rw [Scalar.ofSpelling_render]
    rfl
  | str s =>
    intro n hn
    cases hn
    exact stands_quoted _ _ _ "str" s .str (by simp [textKeys])
  | expr s =>
    intro n hn
    cases hn
    exact stands_quoted _ _ _ "expr" s .expr (by simp [textKeys])
  | tensor name =>
    intro n hn
    cases hn
    exact stands_quoted _ _ _ "tensor" name .tensor (by simp [textKeys])
  | tuple items _ ih =>
    intro n hn
    cases hn with
    | tuple _ _ _ hall =>
      exact stands_items _ _ _ "tuple" .tuple (by simp [itemKeys]) (forall₂_stands hall ih)
  | list items _ ih =>
    intro n hn
    cases hn with
    | list _ hall => exact stands_sequence _ (forall₂_stands hall ih)
    | keyedList _ _ _ hall =>
      exact stands_items _ _ _ "list" .list (by simp [itemKeys]) (forall₂_stands hall ih)

/-- The decoder of attribute values accepts exactly the nodes of the grammar and gives them the values
that they denote, a plain scalar without a tag the one that it spells. Every storable value has a tree,
and each of its trees is decoded to the value; only NaNs are not told apart. -/
theorem values_decoded_by_grammar :
    (∀ n : Yaml.Node, n.WrittenOut → ((∃ v, valueOf n = .ok v) ↔ IsValue n) ∧
      ∀ v, valueOf n = .ok v ↔ Denotes n v) ∧
    (∀ (line : Nat) (text : String) (v : Value),
      (valueOf (.ofScalar line "" true text) = .ok v ↔
        spelled? text (Scalar.ofSpelling true text) = some v) ∧
      (valueOf (.ofScalar line "" false text) = .ok v ↔ v = .str text)) ∧
    ∀ v : Value, v.Storable → (∃ n, Written v n) ∧
      ∀ n, Written v n → valueOf n = .ok v.oneNaN ∧ (v.hasNaN = false → valueOf n = .ok v) := by
  refine ⟨fun n hn => ⟨exists_value_iff hn, valueOf_eq_ok hn⟩, fun line text v => ?_,
    fun v hv => ?_⟩
  · refine ⟨valueOf_plain line text v, ?_⟩
    have hquoted : valueOf (.ofScalar line "" false text) = .ok (.str text) := rfl
    rw [hquoted, Except.ok.injEq, eq_comm]
  · refine ⟨exists_written hv, fun n hn => ?_⟩
    obtain ⟨hout, hdenotes⟩ := stands_of_written hv n hn
    have hvalue := (valueOf_eq_ok hout _).mpr hdenotes
    refine ⟨hvalue, fun hnan => ?_⟩
    rw [hvalue, hv.oneNaN_eq hnan]

def lookalikes : Value :=
  .tuple [.str "null", .str "", .list [.str "1", .list [], .expr "true"], .tensor "~",
    .int (-9223372036854775808), .float (.infinity true), .none, .bool false]

def lookalikesTree : Yaml.Node :=
  keyed 1 1 "tuple" (.sequence 1 Yaml.Tag.seq
    [keyed 1 1 "str" (.ofScalar 1 "" false "null"), keyed 2 2 "str" (.ofScalar 2 "" false ""),
      keyed 3 3 "list" (.sequence 3 Yaml.Tag.seq
        [keyed 3 3 "str" (.ofScalar 3 "" false "1"), .sequence 3 Yaml.Tag.seq [],
          keyed 3 3 "expr" (.ofScalar 3 "" false "true")]),
      keyed 4 4 "tensor" (.ofScalar 4 "" false "~"), .ofScalar 5 "" true "-9223372036854775808",
      .ofScalar 6 "" true "-.inf", .ofScalar 7 "" true "null", .ofScalar 8 "" true "false"])

theorem lookalikes_decoded :
    valueOf lookalikesTree = .ok lookalikes ∧
      ¬ ∃ v, valueOf (keyed 1 1 "tensor" (.ofScalar 1 "" true "~")) = .ok v := by
  obtain ⟨hgrammar, -, hvalues⟩ := values_decoded_by_grammar
  constructor
  · have hstorable : lookalikes.Storable := by
      refine .tuple _ ?_
      simp only [List.forall_mem_cons]
      refine ⟨.str _, .str _, .list _ ?_, .tensor _, .int _ (by decide) (by decide), .float _, .none,
        .bool _, by simp⟩
      simp only [List.forall_mem_cons]
      exact ⟨.str _, .list _ (by simp), .expr _, by simp⟩
    have hwritten : Written lookalikes lookalikesTree := by
      have hint : decimalText (-9223372036854775808) = "-9223372036854775808" := by decide +kernel
      have hinfinity : (Binary64.infinity true).render Scalar.floatLayout = "-.inf" := by
        decide +kernel
      rw [lookalikesTree, ← hint, ← hinfinity]
      exact .tuple 1 1 1 (.cons (.str 1 1 1 _) (.cons (.str 2 2 2 _) (.cons
        (.keyedList 3 3 3 (.cons (.str 3 3 3 _) (.cons (.list 3 .nil) (.cons (.expr 3 3 3 _) .nil))))
        (.cons (.tensor 4 4 4 _) (.cons (.int 5 _) (.cons (.float 6 _) (.cons (.none 7)
          (.cons (.bool 8 false) .nil))))))))
    exact ((hvalues lookalikes hstorable).2 _ hwritten).2 (by decide)
  · have hout : (Yaml.Node.ofScalar 1 "" true "~").WrittenOut := .scalar ..
    rw [(hgrammar _ (writtenOut_keyed 1 1 "tensor" hout)).1]
    intro h
    cases h with
    | text hkey htag => exact htag (by decide)

end Document

end Netscribe
