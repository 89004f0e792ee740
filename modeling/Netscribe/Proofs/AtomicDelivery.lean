import Netscribe.Delivery
import Netscribe.Proofs.Outcome
import Netscribe.Proofs.PathText

/-!
# A file is replaced whole or not at all

What a replacement changes is followed place by place: missing directories are made on the way to the
file, the temporary file stands at a place that was vacant, and only the move to the path touches
another place. Whatever step fails, on any disk, all that differs from the tree before is new
directories on the way.
-/

namespace Netscribe

namespace FileTree

/-! ### Places -/

theorem find?_erased (items : List (Place × Item)) (p q : Place) :
    (items.filter (·.1 != p)).find? (·.1 == q) =
      if q = p then none else items.find? (·.1 == q) := by
  rw [List.find?_filter]
  split
  · next h =>
    subst h
    rw [List.find?_eq_none]
    intro e _
    by_cases he : e.1 = q <;> simp [he]
  · next h =>
    congr 1
    funext e
    by_cases he : e.1 = q
    · simp [he, h]
    · simp [he]

theorem get?_put (t : FileTree) (p q : Place) (i : Item) (hp : p ≠ []) :
    (t.put p i).get? q = if q = p then some i else t.get? q := by
  unfold get? put
  by_cases hq : q = p
  · subst hq
    simp [hp]
  · have hpq : (p == q) = false := by simpa using fun h : p = q => hq h.symm
    rw [List.find?_cons, hpq]
    simp only [find?_erased, hq, if_false]

theorem get?_erase (t : FileTree) (p q : Place) (hp : p ≠ []) :
    (t.erase p).get? q = if q = p then none else t.get? q := by
  unfold get? erase
  by_cases hq : q = p
  · subst hq
    simp [hp]
  · simp only [find?_erased, hq, if_false]

theorem ne_nil_of_vacant (t : FileTree) (p : Place) (h : t.get? p = none) : p ≠ [] := by
  rintro rfl
  simp [get?] at h

/-- The trees have the same working directory and the same items everywhere but at a place. -/
structure SameBut (place : Place) (t t' : FileTree) : Prop where
  working : t'.working = t.working
  items : ∀ q, q ≠ place → t'.get? q = t.get? q

theorem SameBut.put {place : Place} {t t' : FileTree} (h : SameBut place t t') (hne : place ≠ [])
    (i : Item) : SameBut place t (t'.put place i) where
  working := h.working
  items q hq := by rw [get?_put t' place q i hne, if_neg hq, h.items q hq]

/-- A place that was vacant is vacant again. -/
theorem SameBut.erase {place : Place} {t t' : FileTree} (h : SameBut place t t')
    (hvacant : t.get? place = none) : ∀ q, (t'.erase place).get? q = t.get? q := by
  intro q
  rw [get?_erase t' place q (ne_nil_of_vacant t place hvacant)]
  split
  · next hq => rw [hq, hvacant]
  · next hq => exact h.items q hq

/-! ### Paths -/

theorem walk_place (t : FileTree) (here q : Place) (names : List String)
    (h : t.walk here names = .ok q) : q = names.foldl enter here := by
  induction names generalizing here with
  | nil =>
    cases h
    rfl
  | cons name rest ih =>
    rw [walk] at h
    split at h
    · cases h
    · cases h
    · split at h
      · cases h
      · exact ih (enter here name) h

/-- A way through directories stays one where these directories stay. -/
theorem walk_of_directories (t t' : FileTree)
    (hkept : ∀ q, t.get? q = some .directory → t'.get? q = some .directory) (here q : Place)
    (names : List String) (h : t.walk here names = .ok q) : t'.walk here names = .ok q := by
  induction names generalizing here with
  | nil => exact h
  | cons name rest ih =>
    rw [walk] at h ⊢
    split at h
    · cases h
    · cases h
    · next hdirectory =>
      rw [hkept here hdirectory]
      split at h
      · cases h
      · next hshort =>
        dsimp only
        rw [if_neg hshort]
        exact ih (enter here name) h

def placeOf (t : FileTree) (absolute : Bool) (names : List String) : Place :=
  names.foldl enter (if absolute then [] else t.working)

theorem resolve_walk (t : FileTree) (path : String) (q : Place) (h : t.resolve path = .ok q) :
    t.walk (if (Path.ofText path).absolute then [] else t.working) (Path.ofText path).names =
      .ok q := by
  unfold resolve at h
  split at h
  · cases h
  · split at h
    · cases h
    · split at h
      · cases h
      · exact h

theorem resolve_place (t : FileTree) (path : String) (q : Place) (h : t.resolve path = .ok q) :
    q = t.placeOf (Path.ofText path).absolute (Path.ofText path).names :=
  t.walk_place _ q _ (t.resolve_walk path q h)

theorem resolve_of_directories (t t' : FileTree) (hworking : t'.working = t.working)
    (hkept : ∀ q, t.get? q = some .directory → t'.get? q = some .directory) (path : String)
    (q : Place) (h : t.resolve path = .ok q) : t'.resolve path = .ok q := by
  have hwalk := walk_of_directories t t' hkept _ q _ (t.resolve_walk path q h)
  unfold resolve at h ⊢
  split at h
  · cases h
  · next hzero =>
    split at h
    · cases h
    · next hempty =>
      split at h
      · cases h
      · next hshort =>
        rw [if_neg hzero, if_neg hempty, if_neg hshort]
        dsimp only
        rw [hworking]
        exact hwalk

/-! ### Directories -/

/-- A place has what it had, or it has a new directory and leading names of a path lead to it. -/
def Kept (absolute : Bool) (names : List String) (t t' : FileTree) (q : Place) : Prop :=
  t'.get? q = t.get? q ∨
    t.get? q = none ∧ t'.get? q = some .directory ∧
      ∃ leading, leading <+: names ∧ q = t.placeOf absolute leading

structure WithParents (absolute : Bool) (names : List String) (t t' : FileTree) : Prop where
  working : t'.working = t.working
  items : ∀ q, Kept absolute names t t' q

theorem WithParents.refl (absolute : Bool) (names : List String) (t : FileTree) :
    WithParents absolute names t t := ⟨rfl, fun _ => .inl rfl⟩

theorem WithParents.append {absolute : Bool} {names : List String} {t t' : FileTree}
    (h : WithParents absolute names t t') (name : String) :
    WithParents absolute (names ++ [name]) t t' := by
  refine ⟨h.working, fun q => ?_⟩
  rcases h.items q with hsame | ⟨hnew, hmade, leading, hleading, hq⟩
  · exact .inl hsame
  · exact .inr ⟨hnew, hmade, leading, hleading.trans (List.prefix_append names [name]), hq⟩

theorem WithParents.put {absolute : Bool} {names : List String} {t t' : FileTree}
    (h : WithParents absolute names t t') (hvacant : t'.get? (t.placeOf absolute names) = none) :
    WithParents absolute names t (t'.put (t.placeOf absolute names) .directory) := by
  have hne := ne_nil_of_vacant t' _ hvacant
  refine ⟨h.working, fun q => ?_⟩
  rw [Kept, get?_put t' _ q .directory hne]
  split
  · next hq =>
    subst hq
    refine .inr ⟨?_, rfl, names, List.prefix_rfl, rfl⟩
    rcases h.items (t.placeOf absolute names) with hsame | ⟨hnew, -⟩
    · rw [← hsame]
      exact hvacant
    · exact hnew
  · exact h.items q

theorem makeDirectory_ok (t t' : FileTree) (path : String) (h : t.makeDirectory path = .ok t') :
    ∃ place, t.resolve path = .ok place ∧ t.get? place = none ∧ t' = t.put place .directory := by
  obtain ⟨place, hresolve, h⟩ := exists_of_bind_eq_ok h
  cases hitem : t.get? place with
  | some i =>
    rw [hitem] at h
    cases h
  | none =>
    rw [hitem] at h
    cases h
    exact ⟨place, hresolve, hitem, rfl⟩

theorem attempt_ok {α : Type} (d : Disk) (operation path : String) (result : Except Cause α)
    (x : α) (h : d.attempt operation path result = .ok x) : result = .ok x := by
  unfold Disk.attempt at h
  split at h
  · cases h
  · cases result with
    | error c => cases h
    | ok y =>
      cases h
      rfl

theorem makeMissing_parents (d : Disk) (t : FileTree) (absolute slash : Bool) (names : List String)
    (hnames : ∀ n ∈ names, Path.IsName n) :
    WithParents absolute names.reverse t (makeMissing d t absolute slash names).1 := by
  induction names generalizing slash with
  | nil => exact .refl absolute [] t
  | cons name above ih =>
    obtain ⟨hname, habove⟩ := List.forall_mem_cons.mp hnames
    have hparents := (ih true habove).append name
    rw [← List.reverse_cons] at hparents
    rw [makeMissing]
    split
    · exact .refl ..
    · exact .refl ..
    · generalize makeMissing d t absolute true above = made at hparents
      obtain ⟨t₁, result⟩ := made
      cases result with
      | error f => exact hparents
      | ok _ =>
        dsimp only
        split
        · next t₂ hmade =>
          -- the text of the path leads to the place of its names
          obtain ⟨place, hresolve, hvacant, rfl⟩ := makeDirectory_ok t₁ t₂ _ (attempt_ok d _ _ _ _ hmade)
          obtain ⟨hread, habsolute⟩ := Path.ofText_text ⟨absolute, (name :: above).reverse, slash⟩
            (by simp) (fun n hn => hnames n (List.mem_reverse.mp hn))
          have hplace := t₁.resolve_place _ place hresolve
          rw [hread, habsolute] at hplace
          have hworking : t₁.placeOf absolute (name :: above).reverse =
              t.placeOf absolute (name :: above).reverse := by
            unfold placeOf
            rw [hparents.working]
          rw [hworking] at hplace
          subst hplace
          exact hparents.put hvacant
        · exact hparents

/-! ### Temporary files -/

theorem vacant_ok (t : FileTree) (path : String) (place : Place) (h : t.vacant path = .ok place) :
    t.get? place = none := by
  obtain ⟨q, -, h⟩ := exists_of_bind_eq_ok h
  cases hitem : t.get? q with
  | some i =>
    rw [hitem] at h
    cases h
  | none =>
    rw [hitem] at h
    dsimp only at h
    split at h
    · cases h
    · cases h
      exact hitem

theorem temporary_vacant (d : Disk) (t : FileTree) (numbers : List Nat) (directory : Path)
    (name source : String) (place : Place)
    (h : temporary d t numbers directory name = .ok (source, place)) : t.get? place = none := by
  unfold temporary at h
  split at h
  · cases h
  · induction numbers with
    | nil => cases h
    | cons number rest ih =>
      rw [vacantTemporary] at h
      split at h
      · next hopen =>
        cases h
        exact t.vacant_ok _ place (attempt_ok d _ _ _ _ hopen)
      · split at h
        · exact ih h
        · cases h

/-! ### Files -/

theorem move_ok (t t' : FileTree) (place : Place) (path : String) (h : t.move place path = .ok t') :
    ∃ target item, t.resolve path = .ok target ∧ t.get? place = some item ∧
      t.get? target ≠ some .directory ∧ (Path.ofText path).slash = false ∧
      t' = (t.erase place).put target item := by
  unfold move at h
  cases hresolve : t.resolve path with
  | error c =>
    rw [hresolve] at h
    cases h
  | ok target =>
    rw [hresolve] at h
    simp only [bind, Except.bind] at h
    split at h
    · cases h
    · cases h
    · next item hitem htarget =>
      split at h
      · cases h
      · next hslash =>
        cases h
        exact ⟨target, item, rfl, hitem, htarget, by simpa using hslash, rfl⟩

/-- The path holds the content, and everything else is as it was. -/
structure Published (path : String) (content : List UInt8) (t t' : FileTree) (target : Place) :
    Prop where
  resolves : t'.resolve path = .ok target
  reads : t'.stat path = .ok (.file content 0o644)
  others : ∀ q, q ≠ target → t'.get? q = t.get? q

/-- The move of a temporary file that stood at a vacant place. -/
theorem move_published (t t₁ t' : FileTree) (place : Place) (path : String) (content : List UInt8)
    (hvacant : t.get? place = none) (hsame : SameBut place t t₁)
    (hfile : t₁.get? place = some (.file content 0o644)) (h : t₁.move place path = .ok t') :
    ∃ target, Published path content t t' target := by
  have hne := ne_nil_of_vacant t place hvacant
  obtain ⟨target, item, hresolve, hitem, htarget, hslash, hmoved⟩ := t₁.move_ok t' place path h
  obtain rfl : Item.file content 0o644 = item := Option.some.inj (hfile.symm.trans hitem)
  -- the root is a directory, so the target is not the root
  have hroot : target ≠ [] := by
    rintro rfl
    exact htarget (by simp [get?])
  have hget : ∀ q, t'.get? q =
      if q = target then some (.file content 0o644) else if q = place then none else t₁.get? q := by
    intro q
    rw [hmoved, get?_put _ target q _ hroot, get?_erase t₁ place q hne]
  have hworking : t'.working = t₁.working := by
    rw [hmoved]
    rfl
  have hdirectories : ∀ q, t₁.get? q = some .directory → t'.get? q = some .directory := by
    intro q hq
    rw [hget q, if_neg, if_neg, hq]
    · rintro rfl
      rw [hfile] at hq
      cases hq
    · rintro rfl
      exact htarget hq
  have hkept := resolve_of_directories t₁ t' hworking hdirectories path target hresolve
  refine ⟨target, hkept, ?_, fun q hq => ?_⟩
  · unfold stat
    rw [hkept]
    simp only [bind, Except.bind, hget target, if_true, hslash]
    rfl
  · rw [hget q, if_neg hq]
    split
    · next hplace => rw [hplace, hvacant]
    · next hplace => exact hsame.items q hplace

/-- After each step the tree differs at the place of the temporary file only, up to the move. -/
theorem publish_cases (d : Disk) (t t₁ : FileTree) (place : Place) (source path : String)
    (content : List UInt8) (hvacant : t.get? place = none) (hsame : SameBut place t t₁) :
    (∃ t' e, publish d t₁ place source path content = (t', .error e) ∧ SameBut place t t') ∨
      ∃ t' target, publish d t₁ place source path content = (t', .ok ()) ∧
        Published path content t t' target := by
  have hne := ne_nil_of_vacant t place hvacant
  unfold publish
  split
  · exact .inl ⟨_, _, rfl, hsame.put hne _⟩
  · next written hwrite =>
    obtain rfl : content = written := Except.ok.inj (attempt_ok d _ _ _ _ hwrite)
    have hwritten := hsame.put hne (.file content privateMode)
    dsimp only
    split
    · exact .inl ⟨_, _, rfl, hwritten⟩
    · next mode hchmod =>
      obtain rfl : publicMode = mode := Except.ok.inj (attempt_ok d _ _ _ _ hchmod)
      have hpublic := hwritten.put hne (.file content publicMode)
      split
      · exact .inl ⟨_, _, rfl, hpublic⟩
      · split
        · exact .inl ⟨_, _, rfl, hpublic⟩
        · next t' hmove =>
          have hfile : ((t₁.put place (.file content privateMode)).put place
              (.file content publicMode)).get? place = some (.file content 0o644) := by
            rw [get?_put _ place place _ hne, if_pos rfl]
            rfl
          obtain ⟨target, hpublished⟩ := move_published t _ t' place path content hvacant hpublic hfile
            (attempt_ok d _ _ _ _ hmove)
          exact .inr ⟨t', target, rfl, hpublished⟩

def Keeps (path : String) (t t' : FileTree) (q : Place) : Prop :=
  Kept (Path.ofText path).directory.absolute (Path.ofText path).directory.names t t' q

theorem replaceOn_cases (d : Disk) (t : FileTree) (numbers : List Nat) (path : String)
    (content : List UInt8) :
    (∃ t' e, replaceOn d t numbers path content = (t', .error e) ∧ ∀ q, Keeps path t t' q) ∨
      ∃ t' target, replaceOn d t numbers path content = (t', .ok ()) ∧
        t'.resolve path = .ok target ∧ t'.stat path = .ok (.file content 0o644) ∧
        ∀ q, q ≠ target → Keeps path t t' q := by
  have hparents := makeMissing_parents d t (Path.ofText path).directory.absolute false
    (Path.ofText path).directory.names.reverse
    (fun n hn => Path.isName_directory path n (List.mem_reverse.mp hn))
  rw [List.reverse_reverse] at hparents
  unfold replaceOn makeDirectoriesOn
  dsimp only
  generalize makeMissing d t (Path.ofText path).directory.absolute false
    (Path.ofText path).directory.names.reverse = made at hparents
  obtain ⟨t₁, result⟩ := made
  have hitems : ∀ q, Keeps path t t₁ q := hparents.items
  cases result with
  | error f => exact .inl ⟨t₁, _, rfl, hitems⟩
  | ok _ =>
    dsimp only
    split
    · exact .inl ⟨t₁, _, rfl, hitems⟩
    · next source place htemporary =>
      have hvacant := temporary_vacant d t₁ numbers _ _ source place htemporary
      have hcreated : SameBut place t₁ (t₁.put place (.file [] privateMode)) :=
        SameBut.put ⟨rfl, fun _ _ => rfl⟩ (ne_nil_of_vacant t₁ place hvacant) _
      rcases publish_cases d t₁ _ place source path content hvacant hcreated with
        ⟨t', e, heq, hsame⟩ | ⟨t', target, heq, hpublished⟩
      · rw [heq]
        refine .inl ⟨_, e, rfl, fun q => ?_⟩
        rw [Keeps, Kept, hsame.erase hvacant q]
        exact hitems q
      · rw [heq]
        refine .inr ⟨t', target, rfl, hpublished.resolves, hpublished.reads, fun q hq => ?_⟩
        rw [Keeps, Kept, hpublished.others q hq]
        exact hitems q

end FileTree

/-- A delivery ends in one of three ways. The source is not generated, and nothing at all is changed;
or a step fails, and there are at most new directories on the way to the path; or the path holds the
source, readable for all, and besides there are at most such directories. -/
theorem delivered_whole_or_not_at_all (d : FileTree.Disk) (t : FileTree) (numbers : List Nat)
    (o : Options) (g : Graph) (path : String) :
    (∀ e, Generation.generate o g = .error e →
        deliverOn d t numbers o g path = (t, Generation.hooks o g, .error (.generation e))) ∧
      ∀ source, Generation.generate o g = .ok source →
        (∃ t' e, deliverOn d t numbers o g path =
            (t', Generation.hooks o g, .error (.replacement e)) ∧
          ∀ q, FileTree.Keeps path t t' q) ∨
        ∃ t' hooks target, deliverOn d t numbers o g path = (t', hooks, .ok ()) ∧
          t'.resolve path = .ok target ∧
          t'.stat path = .ok (.file (Utf8.encode source) 0o644) ∧
          ∀ q, q ≠ target → FileTree.Keeps path t t' q := by
  refine ⟨fun e he => ?_, fun source hsource => ?_⟩
  · have hcontent : Delivery.content o g = .error e := by
      rw [Delivery.content, he]
      rfl
    simp only [deliverOn, hcontent]
  · have hcontent : Delivery.content o g = .ok (Utf8.encode source) := by
      rw [Delivery.content, hsource]
      rfl
    simp only [deliverOn, hcontent]
    rcases FileTree.replaceOn_cases d t numbers path (Utf8.encode source) with
      ⟨t', e, heq, hkeeps⟩ | ⟨t', target, heq, hresolve, hstat, hkeeps⟩
    · rw [heq]
      exact .inl ⟨t', e, rfl, hkeeps⟩
    · rw [heq]
      exact .inr ⟨t', _, target, rfl, hresolve, hstat, hkeeps⟩

end Netscribe
