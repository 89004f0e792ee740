import Netscribe.Proofs.AliasData

/-!
# Decoding without problems

A decoding that reports a problem on the way gives nothing in the end, so what it gives can be read off
the nodes alone. `Decoding.Ensures` is such a postcondition, with one rule for each step of decoding. In
nodes without aliases and merge keys, scalars are decoded as their views (`Node.text?`, `Node.int?`),
lists item by item, and a record is changed by the entries of its mapping in order (`Change.All`), so
that each part of it is given by the value under one key.
-/

namespace Netscribe.Yaml

namespace Decoding

variable {α β : Type}

/-- If nothing is reported up to the end, nothing was reported before, and the value has the property. -/
def Ensures (d : Decoding α) (P : α → Prop) : Prop :=
  ∀ t x u, d t = .ok (x, u) → u.problems = [] → t.problems = [] ∧ P x

namespace Ensures

theorem pure {P : α → Prop} {x : α} (h : P x) : Ensures (Pure.pure x) P := by
  intro t y u hrun hclean
  cases hrun
  exact ⟨hclean, h⟩

theorem throw {P : α → Prop} (f : Failure) : Ensures (MonadExcept.throw f : Decoding α) P := by
  intro t x u hrun
  cases hrun

/-- That the first part is without problems is known at the end only, so what it ensures is a
hypothesis in the property of the second part, not in its proof. -/
theorem bind {P : α → Prop} {Q : β → Prop} {d : Decoding α} {k : α → Decoding β}
    (hd : Ensures d P) (hk : ∀ x, Ensures (k x) fun y => P x → Q y) : Ensures (d >>= k) Q := by
  intro t y u hrun hclean
  change Except.bind (d t) (fun p => k p.1 p.2) = _ at hrun
  cases hfirst : d t with
  | error f =>
    rw [hfirst] at hrun
    cases hrun
  | ok p =>
    rw [hfirst] at hrun
    obtain ⟨hmiddle, hQ⟩ := hk p.1 p.2 y u hrun hclean
    obtain ⟨hstart, hP⟩ := hd t p.1 p.2 hfirst hmiddle
    exact ⟨hstart, hQ hP⟩

theorem mono {P Q : α → Prop} {d : Decoding α} (h : Ensures d P) (hPQ : ∀ x, P x → Q x) :
    Ensures d Q := by
  intro t x u hrun hclean
  obtain ⟨hstart, hP⟩ := h t x u hrun hclean
  exact ⟨hstart, hPQ x hP⟩

theorem lift (r : Except Failure α) : Ensures (liftM r : Decoding α) fun x => r = .ok x := by
  intro t x u hrun hclean
  cases r with
  | error f => cases hrun
  | ok y =>
    cases hrun
    exact ⟨hclean, rfl⟩

theorem report (ps : List Problem) : Ensures (Decoding.report ps) fun _ => ps = [] := by
  intro t x u hrun hclean
  cases hrun
  exact List.append_eq_nil_iff.mp hclean

theorem visit (behind : Bool) : Ensures (Decoding.visit behind) fun _ => True := by
  intro t x u hrun hclean
  rcases Mirrors.visit_cases behind t with hvisit | hvisit
  · rw [hvisit] at hrun
    cases hrun
  · rw [hvisit] at hrun
    cases hrun
    exact ⟨hclean, trivial⟩

/-- A problem that is reported for sure leaves nothing to show. -/
theorem reported {P : α → Prop} (p : Problem) (d : Decoding α) (h : Ensures d fun _ => True) :
    Ensures (do Decoding.report [p]; d) P :=
  (report [p]).bind fun _ => h.mono fun _ _ hnone => by cases hnone

theorem run {P : α → Prop} {d : Decoding α} (h : Ensures d P) (x : α) (hrun : d.run = .ok x) :
    P x := by
  unfold Decoding.run StateT.run at hrun
  split at hrun
  · cases hrun
  · next y t hend =>
    split at hrun
    · next hclean =>
      cases hrun
      exact (h .empty _ t hend (List.isEmpty_iff.mp hclean)).2
    · cases hrun

end Ensures

end Decoding

open Decoding (Ensures)

namespace Node

/-! ### Nodes without aliases and merge keys -/

mutual

/-- There is no merge key in the node. -/
def mergeFree : Node → Bool
  | scalar _ _ _ => true
  | sequence _ _ items => mergeFreeItems items
  | mapping _ _ entries => mergeFreeEntries entries
  | aliasOf _ _ target => mergeFree target
  | cycle _ _ _ _ => true

def mergeFreeItems : List Node → Bool
  | [] => true
  | n :: rest => mergeFree n && mergeFreeItems rest

def mergeFreeEntries : List (Node × Node) → Bool
  | [] => true
  | (k, v) :: rest => !k.isMergeKey && mergeFree k && mergeFree v && mergeFreeEntries rest

end

structure Plain (n : Node) : Prop where
  aliasFree : n.aliasFree = true
  mergeFree : n.mergeFree = true

theorem Plain.isAlias {n : Node} (h : n.Plain) : n.isAlias = false := by
  cases n with
  | aliasOf => cases h.aliasFree
  | _ => rfl

theorem Plain.item {line : Nat} {tag : String} {items : List Node}
    (h : (sequence line tag items).Plain) : ∀ n ∈ items, n.Plain := by
  obtain ⟨halias, hmerge⟩ := h
  rw [Node.aliasFree] at halias
  rw [Node.mergeFree] at hmerge
  induction items with
  | nil => simp
  | cons n rest ih =>
    rw [aliasFreeItems, Bool.and_eq_true] at halias
    rw [mergeFreeItems, Bool.and_eq_true] at hmerge
    rw [List.forall_mem_cons]
    exact ⟨⟨halias.1, hmerge.1⟩, ih halias.2 hmerge.2⟩

theorem Plain.entry {line : Nat} {tag : String} {entries : List (Node × Node)}
    (h : (mapping line tag entries).Plain) :
    ∀ e ∈ entries, e.1.isMergeKey = false ∧ e.1.Plain ∧ e.2.Plain := by
  obtain ⟨halias, hmerge⟩ := h
  rw [Node.aliasFree] at halias
  rw [Node.mergeFree] at hmerge
  induction entries with
  | nil => simp
  | cons e rest ih =>
    simp only [aliasFreeEntries, Bool.and_eq_true] at halias
    simp only [mergeFreeEntries, Bool.and_eq_true, Bool.not_eq_true'] at hmerge
    obtain ⟨⟨hkey, hvalue⟩, hrest⟩ := halias
    obtain ⟨⟨⟨hnone, hkey'⟩, hvalue'⟩, hrest'⟩ := hmerge
    rw [List.forall_mem_cons]
    exact ⟨⟨hnone, ⟨hkey, hkey'⟩, hvalue, hvalue'⟩, ih hrest hrest'⟩

/-! ### Scalars -/

def scalar? : Node → Option Scalar
  | scalar _ tag text => (Scalar.resolve tag text).toOption
  | _ => none

/-- The text of a scalar: its value if that is a text, else its spelling. Null has none. -/
def text? (n : Node) : Option String :=
  match n.scalar? with
  | none => none
  | some .null => none
  | some (.text s) => some s
  | some _ => some n.scalarText

def int? (n : Node) : Option Int := n.scalar?.bind int64?

theorem scalar?_scalar (line : Nat) (tag text : String) (v : Scalar)
    (h : Scalar.resolve tag text = .ok v) : (scalar line tag text).scalar? = some v := by
  rw [scalar?, h]
  rfl

/-- Exactly the scalars tagged as null are null. -/
theorem resolve_null_iff (tag text : String) (v : Scalar) (h : Scalar.resolve tag text = .ok v) :
    v = .null ↔ tag = Tag.null := by
  have htag : ∀ w : Scalar, w = .null ↔ w.tag = Tag.null := by
    intro w
    cases w <;> simp [Scalar.tag, Tag.null, Tag.bool, Tag.int, Tag.float, Tag.str, Tag.timestamp]
  unfold Scalar.resolve at h
  split at h
  · next hstr =>
    cases h
    rw [htag, hstr]
    rfl
  · split at h
    · dsimp only at h
      split at h
      · next hown =>
        cases h
        rw [htag, hown]
      · next hother =>
        split at h
        · split at h
          · next hfloat =>
            cases h
            rw [htag, hfloat.1]
            rfl
          · cases h
        · cases h
    · next hlisted =>
      have hnull : tag ≠ Tag.null := by
        rintro rfl
        exact hlisted rfl
      split at h
      · split at h
        · cases h
          simp [hnull]
        · cases h
      · cases h
        simp [hnull]

theorem tag_eq_null_iff (n : Node) (v : Scalar) (h : n.scalar? = some v) :
    n.tag = Tag.null ↔ v = .null := by
  cases n with
  | scalar line tag text =>
    rw [scalar?] at h
    cases hresolve : Scalar.resolve tag text with
    | error f =>
      rw [hresolve] at h
      cases h
    | ok w =>
      rw [hresolve] at h
      cases h
      exact (resolve_null_iff tag text v hresolve).symm
  | _ => cases h

theorem follow_ensures {α : Type} {P : α → Prop} (f : Bool → Node → Decoding α) (behind : Bool)
    (n : Node) (hn : n.isAlias = false) (h : Ensures (f behind n) P) :
    Ensures (n.follow f behind) P := by
  have hvisited : Ensures (do Decoding.visit behind; f behind n) P :=
    (Ensures.visit behind).bind fun _ => h.mono fun _ hx _ => hx
  cases n with
  | aliasOf => cases hn
  | cycle line name anchor number =>
    rw [follow]
    exact (Ensures.visit behind).bind fun _ => .throw _
  | _ =>
    rw [follow]
    · exact hvisited
    all_goals simp

theorem reportDuplicates_ensures (entries : List (Node × Node)) :
    Ensures (reportDuplicates entries) fun b => b = false ∧ duplicates entries = [] := by
  apply (Ensures.report _).bind
  intro _
  apply Ensures.pure
  intro hnone
  rw [hnone]
  exact ⟨rfl, rfl⟩

theorem scalarValue_ensures (target : String) (behind : Bool) (n : Node) (hn : n.isAlias = false) :
    Ensures (n.scalarValue target behind) fun r => ∃ v, n.scalar? = some v ∧ r = some (n, v) := by
  unfold scalarValue
  apply follow_ensures _ behind n hn
  cases n with
  | scalar line tag text =>
    apply (Ensures.lift _).bind
    intro v
    exact .pure fun hv => ⟨v, scalar?_scalar line tag text v hv, rfl⟩
  | mapping line tag entries =>
    apply (reportDuplicates_ensures entries).bind
    intro repeated
    cases repeated with
    | true => exact .pure fun h => by cases h.1
    | false => exact .reported _ _ (.pure trivial)
  | sequence => exact .reported _ _ (.pure trivial)
  | aliasOf => cases hn
  | cycle => exact .reported _ _ (.pure trivial)

theorem asText_ensures (behind : Bool) (n : Node) (hn : n.isAlias = false) :
    Ensures (n.asText behind) fun r => n.scalar? ≠ none ∧ r = n.text? := by
  unfold asText
  apply (scalarValue_ensures "string" behind n hn).bind
  intro r
  split
  · exact .pure fun ⟨_, _, hr⟩ => by cases hr
  all_goals
    apply Ensures.pure
    rintro ⟨v, hv, hr⟩
    cases hr
    simp [text?, hv]

theorem asText_of_text? (behind : Bool) (n : Node) (s : String) (h : n.text? = some s) :
    n.asText behind = do
      Decoding.visit behind
      return some s := by
  cases n with
  | scalar line tag text =>
    rw [text?, scalar?] at h
    cases hresolve : Scalar.resolve tag text with
    | error f =>
      rw [hresolve] at h
      cases h
    | ok v =>
      rw [hresolve] at h
      have hlift : (liftM (Except.ok v : Except Failure Scalar) : Decoding Scalar) = pure v := rfl
      unfold asText scalarValue
      rw [follow]
      · simp only [hresolve, hlift, bind_assoc, pure_bind]
        congr 1
        funext _
        cases v with
        | null => cases h
        | _ =>
          cases h
          rfl
      all_goals simp
  | _ => cases h

theorem asInt_ensures (target : String) (behind : Bool) (n : Node) (hn : n.isAlias = false) :
    Ensures (n.asInt target behind) fun r => r = n.int? ∧ (r = none → n.scalar? = some .null) := by
  unfold asInt
  apply (scalarValue_ensures target behind n hn).bind
  intro r
  split
  · exact .pure fun ⟨v, hv, hr⟩ => by cases hr
  · apply Ensures.pure
    rintro ⟨v, hv, hr⟩
    cases hr
    simp [int?, hv, int64?]
  · next m w _ =>
    split
    · next i hi =>
      apply Ensures.pure
      rintro ⟨v, hv, hr⟩
      cases hr
      simp [int?, hv, hi]
    · exact .reported _ _ (.pure trivial)

/-! ### Lists -/

section

variable {β : Type} (R : Node → β → Prop) (read : Bool → Node → Decoding (Option β)) (behind : Bool)

theorem items_ensures (ns : List Node)
    (h : ∀ n ∈ ns, Ensures (read behind n) fun r => ∃ b, r = some b ∧ R n b) :
    Ensures (items read behind ns) (List.Forall₂ R ns) := by
  induction ns with
  | nil => exact .pure .nil
  | cons n rest ih =>
    obtain ⟨hn, hrest⟩ := List.forall_mem_cons.mp h
    apply hn.bind
    intro r
    apply (ih hrest).bind
    intro bs
    apply Ensures.pure
    rintro hbs ⟨b, rfl, hb⟩
    exact .cons hb hbs

theorem asList_ensures (target : String) (line : Nat) (tag : String) (ns : List Node)
    (h : ∀ n ∈ ns, Ensures (read behind n) fun r => ∃ b, r = some b ∧ R n b) :
    Ensures ((sequence line tag ns).asList target read behind) fun r =>
      ∃ bs, r = some bs ∧ List.Forall₂ R ns bs := by
  unfold asList
  apply follow_ensures _ behind _ rfl
  apply (items_ensures R read behind ns h).bind
  intro bs
  exact .pure fun hbs => ⟨bs, rfl, hbs⟩

end

/-! ### Mappings -/

/-- The keys of the entries are texts, and no two are the same. -/
structure Keyed (entries : List (Node × Node)) : Prop where
  texts : ∀ e ∈ entries, e.1.text? = some e.1.keyText
  nodup : (entries.map (·.1.keyText)).Nodup

def member? (n : Node) (key : String) : Option Node :=
  match n with
  | mapping _ _ entries => (entries.find? fun e => e.1.keyText == key).map (·.2)
  | _ => none

end Node

/-- How an entry may change a record: its key, its value, and the record before and after. -/
abbrev Change (α : Type) : Type := String → Node → α → α → Prop

def Change.All {α : Type} (puts : Change α) : List (Node × Node) → α → α → Prop
  | [], x, y => y = x
  | e :: rest, x, y => ∃ z, puts e.1.keyText e.2 x z ∧ Change.All puts rest z y

/-- A part of a record that only one key changes is given by the value under this key. -/
theorem Change.All.part {α β : Type} {puts : Change α} (part : α → β) (key : String)
    (S : Node → β → Prop)
    (hpart : ∀ name v x y, puts name v x y → if name = key then S v (part y) else part y = part x)
    (line : Nat) (tag : String) (entries : List (Node × Node))
    (hnodup : (entries.map (·.1.keyText)).Nodup) {x y : α} (h : Change.All puts entries x y) :
    (∀ v, (Node.mapping line tag entries).member? key = some v → S v (part y)) ∧
      ((Node.mapping line tag entries).member? key = none → part y = part x) := by
  simp only [Node.member?]
  induction entries generalizing x with
  | nil =>
    obtain rfl := h
    simp
  | cons e rest ih =>
    obtain ⟨z, hz, hrest⟩ := h
    rw [List.map_cons, List.nodup_cons] at hnodup
    obtain ⟨hfound, hmissing⟩ := ih hnodup.2 hrest
    have hhere := hpart e.1.keyText e.2 x z hz
    rw [List.find?_cons]
    by_cases hkey : e.1.keyText = key
    · -- the key does not come again
      have hnone : rest.find? (fun e => e.1.keyText == key) = none := by
        rw [List.find?_eq_none]
        intro d hd hsame
        apply hnodup.1
        rw [hkey, ← beq_iff_eq.mp hsame]
        exact List.mem_map_of_mem hd
      rw [hnone] at hmissing
      rw [if_pos hkey, ← hmissing rfl] at hhere
      rw [beq_iff_eq.mpr hkey]
      constructor
      · intro v hv
        cases hv
        exact hhere
      · intro hv
        cases hv
    · rw [if_neg hkey] at hhere
      rw [beq_false_of_ne hkey, ← hhere]
      exact ⟨hfound, hmissing⟩

section

variable {σ : Type} (f : EntryStep σ)

theorem walkMerge_of_none (behind : Bool) (all : List (Node × Node)) (taken : Taken) (x : σ)
    (entries : List (Node × Node)) (h : ∀ e ∈ entries, e.1.isMergeKey = false) :
    walkMerge f behind all taken x entries = pure (taken, x) := by
  cases entries with
  | nil => rfl
  | cons e rest =>
    obtain ⟨he, hrest⟩ := List.forall_mem_cons.mp h
    have hnone : Node.hasMergeKey rest = false := by
      rw [Node.hasMergeKey, List.any_eq_false]
      simpa using hrest
    rw [walkMerge_cons, hnone, he]
    rfl

theorem walk_ensures {P : σ → Prop} (behind : Bool) (x : σ) (entries : List (Node × Node))
    (hfree : ∀ e ∈ entries, e.1.isMergeKey = false)
    (h : Ensures (walkOwn f behind none x entries) fun p => P p.2) :
    Ensures (walk f behind x entries) P := by
  unfold walk
  apply h.bind
  rintro ⟨taken, y⟩
  dsimp only
  rw [walkMerge_of_none f behind entries taken y entries hfree]
  exact .pure id

end

namespace RecordType

variable {α : Type} (r : RecordType α) (puts : Change α)

/-- An entry has a text as its key, and the field of this name is read from it. -/
structure Reads (behind : Bool) (e : Node × Node) : Prop where
  isMergeKey : e.1.isMergeKey = false
  text : e.1.text? = some e.1.keyText
  field : ∀ field ∈ r.fields, field.1 = e.1.keyText → ∀ x,
    Ensures (field.2 behind e.2 x) (puts field.1 e.2 x)

variable (hskip : ∀ name v x, name ∉ r.fields.map (·.1) → puts name v x x)

include hskip

theorem entry_ensures (behind : Bool) (taken : Taken) (done : List String) (x : α)
    (e : Node × Node) (h : r.Reads puts behind e) :
    Ensures (r.entry behind taken (done, x) e.1 e.2) fun p =>
      taken = none → p.1 = none ∧ puts e.1.keyText e.2 x p.2.2 := by
  unfold entry
  rw [Node.asText_of_text? behind e.1 _ h.text]
  simp only [bind_assoc, pure_bind]
  apply (Ensures.visit behind).bind
  intro _
  cases htake : taken.take (.text e.1.keyText) with
  | none =>
    apply Ensures.pure
    rintro - rfl
    cases htake
  | some taken' =>
    -- before merging begins every key is free, and none is noted as taken
    have hnone : taken = none → taken' = none := by
      rintro rfl
      exact (Option.some.inj htake).symm
    cases hlookup : r.fields.lookup e.1.keyText with
    | none =>
      have hunknown : e.1.keyText ∉ r.fields.map (·.1) := by
        intro hmem
        obtain ⟨field, hfield, hkey⟩ := List.mem_map.mp hmem
        exact bne_iff_ne.mp (List.lookup_eq_none_iff.mp hlookup field hfield) hkey.symm
      dsimp only
      split
      · exact .reported _ _ (.pure trivial)
      · exact .pure fun _ hfirst => ⟨hnone hfirst, hskip _ _ _ hunknown⟩
    | some read =>
      obtain ⟨before, after, hsplit, -⟩ := List.lookup_eq_some_iff.mp hlookup
      have hfield := h.field (e.1.keyText, read) (by rw [hsplit]; simp) rfl x
      dsimp only
      split
      · exact .reported _ _ (.pure trivial)
      · apply hfield.bind
        intro y
        exact .pure fun hy _ hfirst => ⟨hnone hfirst, hy⟩

theorem walkOwn_entry_ensures (behind : Bool) (entries : List (Node × Node))
    (h : ∀ e ∈ entries, r.Reads puts behind e) (taken : Taken) (done : List String) (x : α) :
    Ensures (walkOwn r.entry behind taken (done, x) entries) fun p =>
      taken = none → puts.All entries x p.2.2 := by
  induction entries generalizing taken done x with
  | nil => exact .pure fun _ => rfl
  | cons e rest ih =>
    obtain ⟨he, hrest⟩ := List.forall_mem_cons.mp h
    rw [walkOwn, he.isMergeKey]
    apply (r.entry_ensures puts hskip behind taken done x e he).bind
    rintro ⟨taken', done', y⟩
    apply (ih hrest taken' done' y).mono
    intro p hp hfirst htaken
    obtain ⟨rfl, hy⟩ := hfirst htaken
    exact ⟨y, hy, hp rfl⟩

theorem read?_ensures (behind : Bool) (line : Nat) (tag : String) (entries : List (Node × Node))
    (h : ∀ e ∈ entries, r.Reads puts behind e) (x : α) :
    Ensures (r.read? behind (.mapping line tag entries) x) fun y? =>
      ∃ y, y? = some y ∧ puts.All entries x y := by
  unfold read?
  apply Node.follow_ensures _ behind _ rfl
  apply (Node.reportDuplicates_ensures entries).bind
  intro repeated
  split
  · next hrepeated =>
    apply Ensures.pure
    rintro ⟨rfl, -⟩
    cases hrepeated
  · have hwalk : Ensures (walk r.entry behind ([], x) entries) fun p => puts.All entries x p.2 := by
      apply walk_ensures r.entry behind ([], x) entries fun e he => (h e he).isMergeKey
      apply (r.walkOwn_entry_ensures puts hskip behind entries h none [] x).mono
      exact fun p hp => hp rfl
    apply hwalk.bind
    intro p
    exact .pure fun hp _ => ⟨p.2, rfl, hp⟩

end RecordType

end Netscribe.Yaml
