import Mathlib.Data.List.Forall2
import Netscribe.Proofs.AliasExpansion

/-!
# Decoding with and without aliases

Decoding a document goes through the same steps as decoding the expanded document, plus a visit for
each alias. `Mirrors` relates two such runs: they end with related values and the same problems, or
with the same failure, unless the run with aliases is refused for them. Each kind of target is shown
to keep this relation: scalars, the entries of mappings, records and lists.
-/

namespace Netscribe.Yaml

/-- A document can be refused for an alias with this failure: there are too many of them, or a merge
key has one of a list. -/
def Failure.refusesAliases : Failure → Bool
  | excessiveAliasing => true
  | mergeSource => true
  | _ => false

namespace Decoding

variable {α β γ δ : Type}

inductive Outcome (R : α → β → Prop) :
    Except Failure (α × Tally) → Except Failure (β × Tally) → Prop
  | refused (f : Failure) (r : Except Failure (β × Tally)) (hf : f.refusesAliases = true) :
    Outcome R (.error f) r
  | failed (f : Failure) : Outcome R (.error f) (.error f)
  | done (x : α) (y : β) (t u : Tally) (hxy : R x y) (hproblems : t.problems = u.problems)
    (haliased : u.aliased = 0) : Outcome R (.ok (x, t)) (.ok (y, u))

/-- The first decoding, which may meet aliases, goes as the second, which meets none. -/
def Mirrors (R : α → β → Prop) (d : Decoding α) (e : Decoding β) : Prop :=
  ∀ t u : Tally, t.problems = u.problems → u.aliased = 0 → Outcome R (d t) (e u)

namespace Mirrors

theorem pure {R : α → β → Prop} {x : α} {y : β} (h : R x y) :
    Mirrors R (Pure.pure x) (Pure.pure y) :=
  fun t u hproblems haliased => .done x y t u h hproblems haliased

theorem throw {R : α → β → Prop} (f : Failure) :
    Mirrors R (MonadExcept.throw f : Decoding α) (MonadExcept.throw f : Decoding β) :=
  fun _ _ _ _ => .failed f

theorem refused {R : α → β → Prop} {f : Failure} (hf : f.refusesAliases = true) (e : Decoding β) :
    Mirrors R (MonadExcept.throw f : Decoding α) e :=
  fun _ _ _ _ => .refused f _ hf

theorem bind {R : α → β → Prop} {S : γ → δ → Prop} {d : Decoding α} {e : Decoding β}
    {k : α → Decoding γ} {l : β → Decoding δ} (hd : Mirrors R d e)
    (hk : ∀ x y, R x y → Mirrors S (k x) (l y)) : Mirrors S (d >>= k) (e >>= l) := by
  intro t u hproblems haliased
  change Outcome S (Except.bind (d t) fun p => k p.1 p.2) (Except.bind (e u) fun p => l p.1 p.2)
  have hfirst := hd t u hproblems haliased
  generalize d t = r at hfirst ⊢
  generalize e u = s at hfirst ⊢
  cases hfirst with
  | refused f _ hf => exact .refused f _ hf
  | failed f => exact .failed f
  | done x y t' u' hxy hproblems' haliased' => exact hk x y hxy t' u' hproblems' haliased'

/-- Where both results are the same, what follows gets one value. -/
theorem bind_eq {S : γ → δ → Prop} {d e : Decoding α} {k : α → Decoding γ} {l : α → Decoding δ}
    (hd : Mirrors Eq d e) (hk : ∀ x, Mirrors S (k x) (l x)) : Mirrors S (d >>= k) (e >>= l) := by
  apply hd.bind
  rintro x _ rfl
  exact hk x

theorem mono {R S : α → β → Prop} {d : Decoding α} {e : Decoding β} (h : Mirrors R d e)
    (hRS : ∀ x y, R x y → S x y) : Mirrors S d e := by
  intro t u hproblems haliased
  have hend := h t u hproblems haliased
  generalize d t = r at hend ⊢
  generalize e u = s at hend ⊢
  cases hend with
  | refused f _ hf => exact .refused f _ hf
  | failed f => exact .failed f
  | done x y t' u' hxy hproblems' haliased' =>
    exact .done x y t' u' (hRS x y hxy) hproblems' haliased'

theorem lift (r : Except Failure α) :
    Mirrors Eq (liftM r : Decoding α) (liftM r : Decoding α) := by
  intro t u hproblems haliased
  cases r with
  | error f => exact .failed f
  | ok x => exact .done x x t u rfl hproblems haliased

theorem report (ps : List Problem) : Mirrors Eq (Decoding.report ps) (Decoding.report ps) := by
  intro t u hproblems haliased
  refine .done () () _ _ rfl ?_ haliased
  change t.problems ++ ps = u.problems ++ ps
  rw [hproblems]

/-- A tally of a run without aliases is never excessive. -/
theorem visit_unaliased (u : Tally) (h : u.aliased = 0) :
    Decoding.visit false u = .ok ((), u.visit false) := by
  have hfine : (u.visit false).isExcessive = false := by
    simp [Tally.isExcessive, Tally.visit, h]
  change (if (u.visit false).isExcessive = true then
    (MonadExcept.throw Failure.excessiveAliasing : Decoding Unit) else set (u.visit false)) u = _
  rw [hfine]
  rfl

theorem visit_cases (behind : Bool) (t : Tally) :
    Decoding.visit behind t = .error .excessiveAliasing ∨
      Decoding.visit behind t = .ok ((), t.visit behind) := by
  change (if (t.visit behind).isExcessive = true then
    (MonadExcept.throw Failure.excessiveAliasing : Decoding Unit) else set (t.visit behind)) t = _ ∨
      (if (t.visit behind).isExcessive = true then
        (MonadExcept.throw Failure.excessiveAliasing : Decoding Unit)
      else set (t.visit behind)) t = _
  split
  · exact .inl rfl
  · exact .inr rfl

theorem visit (behind : Bool) : Mirrors Eq (Decoding.visit behind) (Decoding.visit false) := by
  intro t u hproblems haliased
  rw [visit_unaliased u haliased]
  rcases visit_cases behind t with h | h
  · rw [h]
    exact .refused _ _ rfl
  · rw [h]
    exact .done () () _ _ rfl hproblems haliased

/-- The visit of an alias has no counterpart. -/
theorem visit_alias {R : α → β → Prop} (behind : Bool) {d : Decoding α} {e : Decoding β}
    (h : Mirrors R d e) : Mirrors R (do Decoding.visit behind; d) e := by
  intro t u hproblems haliased
  change Outcome R (Except.bind (Decoding.visit behind t) fun p => d p.2) (e u)
  rcases visit_cases behind t with hvisit | hvisit
  · rw [hvisit]
    exact .refused _ _ rfl
  · rw [hvisit]
    exact h _ u hproblems haliased

theorem run {R : α → β → Prop} {d : Decoding α} {e : Decoding β} (h : Mirrors R d e) :
    (∃ f, f.refusesAliases = true ∧ d.run = .error (.failure f)) ∨
      (∃ err, d.run = .error err ∧ e.run = .error err) ∨
      ∃ x y, d.run = .ok x ∧ e.run = .ok y ∧ R x y := by
  have hend := h .empty .empty rfl rfl
  unfold Decoding.run StateT.run
  generalize d .empty = r at hend ⊢
  generalize e .empty = s at hend ⊢
  cases hend with
  | refused f _ hf => exact .inl ⟨f, hf, rfl⟩
  | failed f => exact .inr (.inl ⟨.failure f, rfl, rfl⟩)
  | done x y t u hxy hproblems _ =>
    dsimp only
    rw [hproblems]
    split
    · exact .inr (.inr ⟨x, y, rfl, rfl, hxy⟩)
    · exact .inr (.inl ⟨_, rfl, rfl⟩)

end Mirrors

end Decoding

open Decoding (Mirrors)

namespace Node

variable {α β : Type} {P : Node → Prop} (hP : Hereditary P)

include hP

/-! ### Scalars -/

theorem follow_mirrors {R : α → β → Prop} (f : Bool → Node → Decoding α)
    (g : Bool → Node → Decoding β)
    (hf : ∀ behind n, P n → n.isAlias = false → Mirrors R (f behind n) (g false n.expanded)) :
    ∀ (n : Node) (behind : Bool), P n →
      Mirrors R (n.follow f behind) (n.expanded.follow g false)
  | scalar line tag text, behind, hn => by
    rw [expanded, follow, follow]
    · exact (Mirrors.visit behind).bind_eq fun _ => hf behind _ hn rfl
    all_goals simp
  | sequence line tag items, behind, hn => by
    rw [expanded, follow, follow, ← expanded]
    · exact (Mirrors.visit behind).bind_eq fun _ => hf behind _ hn rfl
    all_goals simp
  | mapping line tag entries, behind, hn => by
    rw [expanded, follow, follow, ← expanded]
    · exact (Mirrors.visit behind).bind_eq fun _ => hf behind _ hn rfl
    all_goals simp
  | aliasOf line name target, behind, hn => by
    rw [expanded, follow]
    exact Mirrors.visit_alias behind
      (follow_mirrors f g hf target true (hP.target line name target hn).1)
  | cycle line name anchor number, behind, hn => by
    rw [expanded, follow, follow]
    exact (Mirrors.visit behind).bind_eq fun _ => .throw _

omit hP in
theorem reportDuplicates_mirrors (entries : List (Node × Node))
    (h : ∀ e ∈ entries, e.1.isAlias = false) :
    Mirrors Eq (reportDuplicates entries) (reportDuplicates (expandedEntries entries)) := by
  unfold reportDuplicates
  rw [duplicates_expanded entries h]
  exact (Mirrors.report _).bind_eq fun _ => .pure rfl

theorem scalarValue_mirrors (target : String) (behind : Bool) (n : Node) (hn : P n) :
    Mirrors Eq (n.scalarValue target behind) (n.expanded.scalarValue target false) := by
  unfold scalarValue
  apply follow_mirrors hP _ _ _ n behind hn
  intro _ m hm halias
  have hmismatch := mismatch_expanded m halias target
  cases m with
  | scalar line tag text => exact (Mirrors.lift _).bind_eq fun _ => .pure rfl
  | mapping line tag entries =>
    have hkeys := fun e he => (hP.entry line tag entries hm e he).1
    simp only [expanded] at hmismatch ⊢
    rw [hmismatch]
    apply (reportDuplicates_mirrors entries hkeys).bind_eq
    intro repeated
    cases repeated with
    | true => exact .pure rfl
    | false => exact (Mirrors.report _).bind_eq fun _ => .pure rfl
  | sequence line tag items =>
    simp only [expanded] at hmismatch ⊢
    rw [hmismatch]
    exact (Mirrors.report _).bind_eq fun _ => .pure rfl
  | aliasOf => cases halias
  | cycle => exact (Mirrors.report _).bind_eq fun _ => .pure rfl

theorem asText_mirrors (behind : Bool) (n : Node) (hn : P n) :
    Mirrors Eq (n.asText behind) (n.expanded.asText false) := by
  unfold asText
  apply (scalarValue_mirrors hP "string" behind n hn).bind_eq
  intro v
  split <;> exact .pure rfl

theorem asText_rel (behind : Bool) (n : Node) (hn : P n) :
    Mirrors (Option.Rel Eq) (n.asText behind) (n.expanded.asText false) := by
  apply (asText_mirrors hP behind n hn).mono
  rintro x _ rfl
  cases x with
  | none => exact .none
  | some s => exact .some rfl

theorem asInt_mirrors (target : String) (behind : Bool) (n : Node) (hn : P n) :
    Mirrors Eq (n.asInt target behind) (n.expanded.asInt target false) := by
  unfold asInt
  apply (scalarValue_mirrors hP target behind n hn).bind_eq
  intro v
  split
  · exact .pure rfl
  · exact .pure rfl
  · split
    · exact .pure rfl
    · exact (Mirrors.report _).bind_eq fun _ => .pure rfl

theorem keyValue_mirrors (behind : Bool) (n : Node) (hn : P n) :
    Mirrors Eq (n.keyValue behind) (n.expanded.keyValue false) := by
  unfold keyValue
  apply follow_mirrors hP _ _ _ n behind hn
  intro _ m hm halias
  cases m with
  | scalar line tag text => exact (Mirrors.lift _).bind_eq fun _ => .pure rfl
  | mapping line tag entries =>
    have hkeys := fun e he => (hP.entry line tag entries hm e he).1
    apply (reportDuplicates_mirrors entries hkeys).bind_eq
    intro repeated
    split
    · exact .pure rfl
    · exact .throw _
  | sequence => exact .throw _
  | aliasOf => cases halias
  | cycle => exact .throw _

theorem keyValues_mirrors (behind : Bool) (entries : List (Node × Node))
    (h : ∀ e ∈ entries, P e.1) :
    Mirrors Eq (keyValues behind entries) (keyValues false (expandedEntries entries)) := by
  induction entries with
  | nil => exact .pure rfl
  | cons e rest ih =>
    obtain ⟨he, hrest⟩ := List.forall_mem_cons.mp h
    rw [expandedEntries, keyValues, keyValues]
    apply (keyValue_mirrors hP behind e.1 he).bind_eq
    intro v
    exact (ih hrest).bind_eq fun _ => .pure rfl

theorem takenBy_mirrors (behind : Bool) (entries : List (Node × Node)) (h : ∀ e ∈ entries, P e.1)
    (taken : Taken) :
    Mirrors Eq (takenBy behind entries taken) (takenBy false (expandedEntries entries) taken) := by
  unfold takenBy
  cases taken with
  | some ks => exact .pure rfl
  | none => exact keyValues_mirrors hP behind entries h

end Node

/-! ### Entries -/

section

open Yaml.Node (expandedItems expandedEntries hasMergeKey hasMergeKey_expanded isMergeKey_expanded)

section

variable {σ : Type} (f : EntryStep σ)

def readMerged (behind : Bool) (keys : List Scalar) (x : σ) : Node → Decoding (List Scalar × σ)
  | .sequence _ _ items => walkSources f behind keys x items
  | v => walkSource f behind keys x v

def readSource (behind : Bool) (keys : List Scalar) (x : σ) (entries : List (Node × Node)) :
    Decoding (List Scalar × σ) := do
  if ← Node.reportDuplicates entries then return (keys, x)
  let (taken, x) ← walkOwn f behind (some keys) x entries
  let (taken, x) ← walkMerge f behind entries taken x entries
  return (taken.getD keys, x)

theorem walkMerge_cons (behind : Bool) (all : List (Node × Node)) (taken : Taken) (x : σ)
    (k v : Node) (rest : List (Node × Node)) :
    walkMerge f behind all taken x ((k, v) :: rest) =
      if hasMergeKey rest then walkMerge f behind all taken x rest
      else if k.isMergeKey then do
        let keys ← Node.takenBy behind all taken
        let p ← readMerged f behind keys x v
        return (taken.map fun _ => p.1, p.2)
      else return (taken, x) := by
  rw [walkMerge]
  cases v <;> rfl

theorem walkSource_mapping (behind : Bool) (keys : List Scalar) (x : σ) (line : Nat) (tag : String)
    (entries : List (Node × Node)) :
    walkSource f behind keys x (.mapping line tag entries) =
      (do Decoding.visit behind; readSource f behind keys x entries) := rfl

theorem walkSource_alias (behind : Bool) (keys : List Scalar) (x : σ) (line line' : Nat)
    (name tag : String) (entries : List (Node × Node)) :
    walkSource f behind keys x (.aliasOf line name (.mapping line' tag entries)) =
      (do Decoding.visit behind; Decoding.visit true; readSource f true keys x entries) := rfl

end

variable {κ σ τ : Type}

def Beside (R : σ → τ → Prop) (p : κ × σ) (q : κ × τ) : Prop := p.1 = q.1 ∧ R p.2 q.2

/-- The steps mirror each other on entries whose parts have the property. -/
structure StepMirrors (P : Node → Prop) (R : σ → τ → Prop) (f : EntryStep σ) (g : EntryStep τ) :
    Prop where
  hereditary : Node.Hereditary P
  step : ∀ behind taken x y k v, R x y → k.isAlias = false → P k → P v →
    Mirrors (Beside R) (f behind taken x k v) (g false taken y k.expanded v.expanded)

variable {P : Node → Prop} {R : σ → τ → Prop} {f : EntryStep σ} {g : EntryStep τ}

theorem walkOwn_mirrors (hfg : StepMirrors P R f g) (behind : Bool) (entries : List (Node × Node))
    (h : ∀ e ∈ entries, e.1.isAlias = false ∧ P e.1 ∧ P e.2) (taken : Taken) (x : σ) (y : τ)
    (hxy : R x y) :
    Mirrors (Beside R) (walkOwn f behind taken x entries)
      (walkOwn g false taken y (expandedEntries entries)) := by
  induction entries generalizing taken x y with
  | nil => exact .pure ⟨rfl, hxy⟩
  | cons e rest ih =>
    obtain ⟨⟨halias, hkey, hvalue⟩, hrest⟩ := List.forall_mem_cons.mp h
    rw [expandedEntries, walkOwn, walkOwn, isMergeKey_expanded e.1 halias]
    split
    · exact ih hrest taken x y hxy
    · apply (hfg.step behind taken x y e.1 e.2 hxy halias hkey hvalue).bind
      rintro ⟨taken', x'⟩ ⟨_, y'⟩ ⟨rfl, hxy'⟩
      exact ih hrest taken' x' y' hxy'

mutual

theorem walkMerge_mirrors (hfg : StepMirrors P R f g) (behind : Bool) (all : List (Node × Node))
    (hall : ∀ e ∈ all, P e.1) (taken : Taken) (x : σ) (y : τ) (hxy : R x y)
    (entries : List (Node × Node)) (h : ∀ e ∈ entries, e.1.isAlias = false ∧ P e.1 ∧ P e.2) :
    Mirrors (Beside R) (walkMerge f behind all taken x entries)
      (walkMerge g false (expandedEntries all) taken y (expandedEntries entries)) := by
  match entries with
  | [] => exact .pure ⟨rfl, hxy⟩
  | (k, v) :: rest =>
    obtain ⟨⟨halias, -, hvalue⟩, hrest⟩ := List.forall_mem_cons.mp h
    rw [expandedEntries, walkMerge_cons, walkMerge_cons, isMergeKey_expanded k halias,
      hasMergeKey_expanded rest fun e he => (hrest e he).1]
    split
    · exact walkMerge_mirrors hfg behind all hall taken x y hxy rest hrest
    · split
      · apply (Node.takenBy_mirrors hfg.hereditary behind all hall taken).bind_eq
        intro keys
        apply (readMerged_mirrors hfg behind keys x y hxy v hvalue).bind
        rintro ⟨keys', x'⟩ ⟨_, y'⟩ ⟨rfl, hxy'⟩
        exact .pure ⟨rfl, hxy'⟩
      · exact .pure ⟨rfl, hxy⟩
termination_by (sizeOf entries, 0)

theorem readMerged_mirrors (hfg : StepMirrors P R f g) (behind : Bool) (keys : List Scalar)
    (x : σ) (y : τ) (hxy : R x y) (v : Node) (h : P v) :
    Mirrors (Beside R) (readMerged f behind keys x v) (readMerged g false keys y v.expanded) := by
  match v with
  | .sequence line tag items =>
    exact walkSources_mirrors hfg behind keys x y hxy items (hfg.hereditary.item line tag items h)
  | .mapping line tag entries =>
    exact walkSource_mirrors hfg behind keys x y hxy (.mapping line tag entries) h
  | .scalar _ _ _ => exact .refused rfl _
  | .cycle _ _ _ _ => exact .refused rfl _
  -- an alias is read as a mapping or refused, also where a list in its place would be read
  | .aliasOf line name (.mapping line' tag entries) =>
    exact walkSource_mirrors hfg behind keys x y hxy
      (.aliasOf line name (.mapping line' tag entries)) h
  | .aliasOf _ _ (.sequence _ _ _) => exact .refused rfl _
  | .aliasOf _ _ (.scalar _ _ _) => exact .refused rfl _
  | .aliasOf _ _ (.cycle _ _ _ _) => exact .refused rfl _
  | .aliasOf _ _ (.aliasOf _ _ _) => exact .refused rfl _
termination_by (sizeOf v, 1)

theorem walkSource_mirrors (hfg : StepMirrors P R f g) (behind : Bool) (keys : List Scalar)
    (x : σ) (y : τ) (hxy : R x y) (n : Node) (h : P n) :
    Mirrors (Beside R) (walkSource f behind keys x n) (walkSource g false keys y n.expanded) := by
  match n with
  | .mapping line tag entries =>
    rw [Node.expanded, walkSource_mapping, walkSource_mapping]
    have hentries := hfg.hereditary.entry line tag entries h
    exact (Mirrors.visit behind).bind_eq fun _ =>
      readSource_mirrors hfg behind keys x y hxy entries hentries
  | .sequence _ _ _ => exact .refused rfl _
  | .scalar _ _ _ => exact .refused rfl _
  | .cycle _ _ _ _ => exact .refused rfl _
  | .aliasOf line name (.mapping line' tag entries) =>
    rw [Node.expanded, Node.expanded, walkSource_alias, walkSource_mapping]
    have htarget := (hfg.hereditary.target line name _ h).1
    have hentries := hfg.hereditary.entry line' tag entries htarget
    exact .visit_alias behind ((Mirrors.visit true).bind_eq fun _ =>
      readSource_mirrors hfg true keys x y hxy entries hentries)
  | .aliasOf _ _ (.sequence _ _ _) => exact .refused rfl _
  | .aliasOf _ _ (.scalar _ _ _) => exact .refused rfl _
  | .aliasOf _ _ (.cycle _ _ _ _) => exact .refused rfl _
  | .aliasOf _ _ (.aliasOf _ _ _) => exact .refused rfl _
termination_by (sizeOf n, 0)

theorem readSource_mirrors (hfg : StepMirrors P R f g) (behind : Bool) (keys : List Scalar)
    (x : σ) (y : τ) (hxy : R x y) (entries : List (Node × Node))
    (h : ∀ e ∈ entries, e.1.isAlias = false ∧ P e.1 ∧ P e.2) :
    Mirrors (Beside R) (readSource f behind keys x entries)
      (readSource g false keys y (expandedEntries entries)) := by
  unfold readSource
  apply (Node.reportDuplicates_mirrors entries fun e he => (h e he).1).bind_eq
  intro repeated
  split
  · exact .pure ⟨rfl, hxy⟩
  · apply (walkOwn_mirrors hfg behind entries h (some keys) x y hxy).bind
    rintro ⟨taken, x'⟩ ⟨_, y'⟩ ⟨rfl, hxy'⟩
    have hkeys := fun e he => (h e he).2.1
    apply (walkMerge_mirrors hfg behind entries hkeys taken x' y' hxy' entries h).bind
    rintro ⟨taken', x''⟩ ⟨_, y''⟩ ⟨rfl, hxy''⟩
    exact .pure ⟨rfl, hxy''⟩
termination_by (sizeOf entries, 1)

theorem walkSources_mirrors (hfg : StepMirrors P R f g) (behind : Bool) (keys : List Scalar)
    (x : σ) (y : τ) (hxy : R x y) (ns : List Node) (h : ∀ n ∈ ns, P n) :
    Mirrors (Beside R) (walkSources f behind keys x ns)
      (walkSources g false keys y (expandedItems ns)) := by
  match ns with
  | [] => exact .pure ⟨rfl, hxy⟩
  | n :: rest =>
    obtain ⟨hn, hrest⟩ := List.forall_mem_cons.mp h
    rw [expandedItems, walkSources, walkSources]
    apply (walkSource_mirrors hfg behind keys x y hxy n hn).bind
    rintro ⟨keys', x'⟩ ⟨_, y'⟩ ⟨rfl, hxy'⟩
    exact walkSources_mirrors hfg behind keys' x' y' hxy' rest hrest
termination_by (sizeOf ns, 0)

end

theorem walk_mirrors (hfg : StepMirrors P R f g) (behind : Bool) (x : σ) (y : τ) (hxy : R x y)
    (entries : List (Node × Node)) (h : ∀ e ∈ entries, e.1.isAlias = false ∧ P e.1 ∧ P e.2) :
    Mirrors R (walk f behind x entries) (walk g false y (expandedEntries entries)) := by
  unfold walk
  apply (walkOwn_mirrors hfg behind entries h none x y hxy).bind
  rintro ⟨taken, x'⟩ ⟨_, y'⟩ ⟨rfl, hxy'⟩
  apply (walkMerge_mirrors hfg behind entries (fun e he => (h e he).2.1) taken x' y' hxy'
    entries h).bind
  rintro ⟨taken', x''⟩ ⟨_, y''⟩ ⟨rfl, hxy''⟩
  exact .pure hxy''

end

/-! ### Records -/

def FieldReader.Keeps {α : Type} (P : Node → Prop) (R : α → α → Prop) (read : FieldReader α) :
    Prop :=
  ∀ behind n x y, P n → R x y → Mirrors R (read behind n x) (read false n.expanded y)

namespace RecordType

variable {α : Type} {P : Node → Prop} {R : α → α → Prop}

theorem entry_mirrors (hP : Node.Hereditary P) (r : RecordType α)
    (hfields : ∀ field ∈ r.fields, field.2.Keeps P R) :
    StepMirrors P (Beside R) r.entry r.entry where
  hereditary := hP
  step := by
    rintro behind taken ⟨done, x⟩ ⟨_, y⟩ k v ⟨rfl, hxy⟩ halias hk hv
    unfold entry
    apply (Node.asText_mirrors hP behind k hk).bind_eq
    intro name?
    cases name? with
    | none => exact .pure ⟨rfl, rfl, hxy⟩
    | some name =>
      rw [Node.line_expanded k halias]
      dsimp only
      cases taken.take (.text name) with
      | none => exact .pure ⟨rfl, rfl, hxy⟩
      | some taken' =>
        dsimp only
        cases hread : r.fields.lookup name with
        | some read =>
          obtain ⟨before, after, hsplit, -⟩ := List.lookup_eq_some_iff.mp hread
          have hkeeps : read.Keeps P R := hfields (name, read) (by rw [hsplit]; simp)
          dsimp only
          split
          · exact (Mirrors.report _).bind_eq fun _ => .pure ⟨rfl, rfl, hxy⟩
          · apply (hkeeps behind v x y hv hxy).bind
            intro x' y' hxy'
            exact .pure ⟨rfl, rfl, hxy'⟩
        | none =>
          dsimp only
          split
          · exact (Mirrors.report _).bind_eq fun _ => .pure ⟨rfl, rfl, hxy⟩
          · exact .pure ⟨rfl, rfl, hxy⟩

theorem read?_mirrors (hP : Node.Hereditary P) (r : RecordType α)
    (hfields : ∀ field ∈ r.fields, field.2.Keeps P R) (behind : Bool)
    (n : Node) (x y : α) (hn : P n) (hxy : R x y) :
    Mirrors (Option.Rel R) (r.read? behind n x) (r.read? false n.expanded y) := by
  unfold read?
  apply Node.follow_mirrors hP _ _ _ n behind hn
  intro behind m hm halias
  have hmismatch := Node.mismatch_expanded m halias r.name
  cases m with
  | scalar line tag text =>
    apply (Mirrors.lift _).bind_eq
    intro v
    split
    · exact (Mirrors.report _).bind_eq fun _ => .pure .none
    · exact .pure .none
  | sequence line tag items =>
    simp only [Node.expanded] at hmismatch ⊢
    rw [hmismatch]
    exact (Mirrors.report _).bind_eq fun _ => .pure .none
  | mapping line tag entries =>
    have hentries := hP.entry line tag entries hm
    apply (Node.reportDuplicates_mirrors entries fun e he => (hentries e he).1).bind_eq
    intro repeated
    split
    · exact .pure .none
    · apply (walk_mirrors (entry_mirrors hP r hfields) behind ([], x) ([], y) ⟨rfl, hxy⟩ entries
        hentries).bind
      rintro ⟨done, x'⟩ ⟨_, y'⟩ ⟨rfl, hxy'⟩
      exact .pure (.some hxy')
  | aliasOf => cases halias
  | cycle => exact .pure .none

theorem read_mirrors (hP : Node.Hereditary P) (r : RecordType α)
    (hfields : ∀ field ∈ r.fields, field.2.Keeps P R) :
    r.read.Keeps P R := by
  intro behind n x y hn hxy
  apply (read?_mirrors hP r hfields behind n x y hn hxy).bind
  intro x' y' hx'
  cases hx' with
  | none => exact .pure hxy
  | some h => exact .pure h

end RecordType

namespace Node

variable {α β : Type} {P : Node → Prop} (hP : Hereditary P)

theorem field_keeps {R : α → α → Prop} {S : β → β → Prop}
    (read : Bool → Node → Decoding (Option β)) (set : α → β → α)
    (hread : ∀ behind n, P n → Mirrors (Option.Rel S) (read behind n) (read false n.expanded))
    (hset : ∀ x y v w, R x y → S v w → R (set x v) (set y w)) :
    (field read set).Keeps P R := by
  intro behind n x y hn hxy
  apply (hread behind n hn).bind
  intro v w hvw
  cases hvw with
  | none => exact .pure hxy
  | some h => exact .pure (hset x y _ _ hxy h)

theorem items_mirrors {S : β → β → Prop} (read : Bool → Node → Decoding (Option β))
    (hread : ∀ behind n, P n → Mirrors (Option.Rel S) (read behind n) (read false n.expanded))
    (behind : Bool) (ns : List Node) (h : ∀ n ∈ ns, P n) :
    Mirrors (List.Forall₂ S) (items read behind ns) (items read false (expandedItems ns)) := by
  induction ns with
  | nil => exact .pure .nil
  | cons n rest ih =>
    obtain ⟨hn, hrest⟩ := List.forall_mem_cons.mp h
    rw [expandedItems, items, items]
    apply (hread behind n hn).bind
    intro v w hvw
    apply (ih hrest).bind
    intro vs ws hvs
    cases hvw with
    | none => exact .pure hvs
    | some h => exact .pure (.cons h hvs)

include hP

theorem asList_mirrors {S : β → β → Prop} (target : String)
    (read : Bool → Node → Decoding (Option β))
    (hread : ∀ behind n, P n → Mirrors (Option.Rel S) (read behind n) (read false n.expanded))
    (behind : Bool) (n : Node) (hn : P n) :
    Mirrors (Option.Rel (List.Forall₂ S)) (n.asList target read behind)
      (n.expanded.asList target read false) := by
  unfold asList
  apply follow_mirrors hP _ _ _ n behind hn
  intro behind m hm halias
  have hmismatch := mismatch_expanded m halias target
  cases m with
  | scalar line tag text =>
    apply (Mirrors.lift _).bind_eq
    intro v
    split
    · exact .pure (.some .nil)
    · exact (Mirrors.report _).bind_eq fun _ => .pure .none
  | sequence line tag items =>
    apply (items_mirrors read hread behind items (hP.item line tag items hm)).bind
    intro vs ws hvs
    exact .pure (.some hvs)
  | mapping line tag entries =>
    simp only [expanded] at hmismatch ⊢
    rw [hmismatch]
    have hentries := hP.entry line tag entries hm
    apply (reportDuplicates_mirrors entries fun e he => (hentries e he).1).bind_eq
    intro repeated
    cases repeated with
    | true => exact .pure .none
    | false => exact (Mirrors.report _).bind_eq fun _ => .pure .none
  | aliasOf => cases halias
  | cycle => exact .pure .none

end Node

end Netscribe.Yaml
