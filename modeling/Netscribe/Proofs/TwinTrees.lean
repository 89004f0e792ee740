import Netscribe.Proofs.AtomicDelivery

/-!
# Trees that differ in what files hold

A replacement looks at what stands on its way, and never into a file. So it goes the same way in two
trees with the same directories and with files at the same places: it ends alike, and it leaves at each
place the same, or what each tree had there.
-/

namespace Netscribe.FileTree

/-- Both computations fail for the same reason, or both give related values. -/
inductive EndsAlike {ε α : Type} (R : α → α → Prop) : Except ε α → Except ε α → Prop
  | failed (e : ε) : EndsAlike R (.error e) (.error e)
  | done (x x' : α) (h : R x x') : EndsAlike R (.ok x) (.ok x')

/-- Both runs give the same answer and leave related trees. -/
inductive AnswersAlike {α : Type} (R : FileTree → FileTree → Prop) :
    FileTree × α → FileTree × α → Prop
  | intro (t t' : FileTree) (answer : α) (h : R t t') : AnswersAlike R (t, answer) (t', answer)

theorem EndsAlike.attempt {α : Type} {R : α → α → Prop} {x x' : Except Cause α}
    (h : EndsAlike R x x') (d : Disk) (operation path : String) :
    EndsAlike R (d.attempt operation path x) (d.attempt operation path x') := by
  unfold Disk.attempt
  cases d.refuses operation path with
  | some c => exact .failed _
  | none =>
    cases h with
    | failed c => exact .failed _
    | done y y' hy => exact .done y y' hy

theorem move_eq (t : FileTree) (place target : Place) (path : String) (item : Item)
    (hresolve : t.resolve path = .ok target) (hitem : t.get? place = some item) :
    t.move place path =
      if t.get? target = some .directory then .error .taken
      else if (Path.ofText path).slash then .error .notDirectory
      else .ok ((t.erase place).put target item) := by
  unfold move
  rw [hresolve]
  simp only [bind, Except.bind, hitem]
  cases t.get? target with
  | none => simp
  | some i =>
    cases i with
    | directory => simp
    | file content mode => simp

def BothFiles (t t' : FileTree) (q : Place) : Prop :=
  ∃ content mode content' mode',
    t.get? q = some (.file content mode) ∧ t'.get? q = some (.file content' mode')

/-- Two trees that come from two others: a place has the same in both, or each still has its own
file there. -/
structure Twins (s s' t t' : FileTree) : Prop where
  working : t'.working = t.working
  items : ∀ q, t'.get? q = t.get? q ∨
    BothFiles s s' q ∧ t.get? q = s.get? q ∧ t'.get? q = s'.get? q

namespace Twins

variable {s s' t t' : FileTree}

theorem same_or_files (h : Twins s s' t t') (q : Place) :
    t'.get? q = t.get? q ∨ BothFiles t t' q := by
  rcases h.items q with hsame | ⟨hfiles, hleft, hright⟩
  · exact .inl hsame
  · refine .inr ?_
    rw [BothFiles, hleft, hright]
    exact hfiles

theorem vacant_iff (h : Twins s s' t t') (q : Place) : t'.get? q = none ↔ t.get? q = none := by
  rcases h.same_or_files q with hsame | ⟨content, mode, content', mode', hleft, hright⟩
  · rw [hsame]
  · simp [hleft, hright]

theorem directory_iff (h : Twins s s' t t') (q : Place) :
    t'.get? q = some .directory ↔ t.get? q = some .directory := by
  rcases h.same_or_files q with hsame | ⟨content, mode, content', mode', hleft, hright⟩
  · rw [hsame]
  · simp [hleft, hright]

theorem put (h : Twins s s' t t') (p : Place) (hp : p ≠ []) (i : Item) :
    Twins s s' (t.put p i) (t'.put p i) := by
  refine ⟨h.working, fun q => ?_⟩
  rw [get?_put t p q i hp, get?_put t' p q i hp]
  split
  · exact .inl rfl
  · exact h.items q

theorem erase (h : Twins s s' t t') (p : Place) (hp : p ≠ []) :
    Twins s s' (t.erase p) (t'.erase p) := by
  refine ⟨h.working, fun q => ?_⟩
  rw [get?_erase t p q hp, get?_erase t' p q hp]
  split
  · exact .inl rfl
  · exact h.items q

/-! ### Looking -/

theorem walk_eq (h : Twins s s' t t') (here : Place) (names : List String) :
    t'.walk here names = t.walk here names := by
  induction names generalizing here with
  | nil => rfl
  | cons name rest ih =>
    rw [walk, walk]
    rcases h.same_or_files here with hsame | ⟨content, mode, content', mode', hleft, hright⟩
    · rw [hsame, ih (enter here name)]
    · rw [hleft, hright]

theorem resolve_eq (h : Twins s s' t t') (path : String) : t'.resolve path = t.resolve path := by
  unfold resolve
  simp only [h.working, h.walk_eq]

theorem stat_endsAlike (h : Twins s s' t t') (path : String) :
    EndsAlike (fun i i' => i' = .directory ↔ i = .directory) (t.stat path) (t'.stat path) := by
  unfold stat
  rw [h.resolve_eq path]
  cases t.resolve path with
  | error c => exact .failed c
  | ok place =>
    simp only [bind, Except.bind]
    rcases h.same_or_files place with hsame | ⟨content, mode, content', mode', hleft, hright⟩
    · rw [hsame]
      cases t.get? place with
      | none => exact .failed _
      | some i =>
        cases i with
        | directory => exact .done _ _ Iff.rfl
        | file content mode =>
          dsimp only
          split
          · exact .failed _
          · exact .done _ _ Iff.rfl
    · rw [hleft, hright]
      dsimp only
      split
      · exact .failed _
      · exact .done _ _ (by simp)

theorem vacant_eq (h : Twins s s' t t') (path : String) : t'.vacant path = t.vacant path := by
  unfold vacant
  rw [h.resolve_eq path]
  cases t.resolve path with
  | error c => rfl
  | ok place =>
    simp only [bind, Except.bind]
    rcases h.same_or_files place with hsame | ⟨content, mode, content', mode', hleft, hright⟩
    · rw [hsame]
    · rw [hleft, hright]

theorem temporary_eq (h : Twins s s' t t') (d : Disk) (numbers : List Nat) (directory : Path)
    (name : String) :
    temporary d t' numbers directory name = temporary d t numbers directory name := by
  have hvacant : vacantTemporary d t' directory name numbers =
      vacantTemporary d t directory name numbers := by
    induction numbers with
    | nil => rfl
    | cons number rest ih =>
      rw [vacantTemporary, vacantTemporary, h.vacant_eq, ih]
  rw [temporary, temporary, hvacant]

/-! ### Changing -/

theorem makeDirectory_endsAlike (h : Twins s s' t t') (path : String) :
    EndsAlike (Twins s s') (t.makeDirectory path) (t'.makeDirectory path) := by
  unfold makeDirectory
  rw [h.resolve_eq path]
  cases t.resolve path with
  | error c => exact .failed c
  | ok place =>
    simp only [bind, Except.bind]
    cases hitem : t.get? place with
    | none =>
      rw [(h.vacant_iff place).mpr hitem]
      exact .done _ _ (h.put place (ne_nil_of_vacant t place hitem) .directory)
    | some i =>
      have htaken : t'.get? place ≠ none := by
        rw [ne_eq, h.vacant_iff place, hitem]
        simp
      obtain ⟨i', hitem'⟩ := Option.ne_none_iff_exists'.mp htaken
      rw [hitem']
      exact .failed _

theorem makeMissing_twins (h : Twins s s' t t') (d : Disk) (absolute slash : Bool)
    (names : List String) :
    AnswersAlike (Twins s s') (makeMissing d t absolute slash names)
      (makeMissing d t' absolute slash names) := by
  induction names generalizing slash with
  | nil => exact .intro _ _ _ h
  | cons name above ih =>
    have habove := ih true
    rw [makeMissing, makeMissing]
    generalize Path.text ⟨absolute, (name :: above).reverse, slash⟩ = path
    have hstat := h.stat_endsAlike path
    generalize t.stat path = x at hstat ⊢
    generalize t'.stat path = x' at hstat ⊢
    cases hstat with
    | done i i' hkind =>
      cases i with
      | directory =>
        rw [hkind.mpr rfl]
        exact .intro _ _ _ h
      | file content mode =>
        cases i' with
        | directory => cases hkind.mp rfl
        | file content' mode' => exact .intro _ _ _ h
    | failed c =>
      dsimp only
      generalize makeMissing d t absolute true above = made at habove ⊢
      generalize makeMissing d t' absolute true above = made' at habove ⊢
      obtain ⟨t₁, t₁', answer, htwins⟩ := habove
      cases answer with
      | error f => exact .intro _ _ _ htwins
      | ok _ =>
        have hmade := (htwins.makeDirectory_endsAlike path).attempt d "mkdir" path
        dsimp only
        generalize d.attempt "mkdir" path (t₁.makeDirectory path) = y at hmade ⊢
        generalize d.attempt "mkdir" path (t₁'.makeDirectory path) = y' at hmade ⊢
        cases hmade with
        | failed f => exact .intro _ _ _ htwins
        | done t₂ t₂' hafter => exact .intro _ _ _ hafter

/-- What is moved has to be the same in both trees. -/
theorem move_endsAlike (h : Twins s s' t t') (place : Place) (hplace : place ≠ []) (item : Item)
    (hitem : t.get? place = some item) (hitem' : t'.get? place = some item) (path : String) :
    EndsAlike (Twins s s') (t.move place path) (t'.move place path) := by
  cases hresolve : t.resolve path with
  | error c =>
    have hresolve' : t'.resolve path = .error c := (h.resolve_eq path).trans hresolve
    unfold move
    rw [hresolve, hresolve']
    exact .failed c
  | ok target =>
    have hresolve' : t'.resolve path = .ok target := (h.resolve_eq path).trans hresolve
    rw [move_eq t place target path item hresolve hitem,
      move_eq t' place target path item hresolve' hitem']
    simp only [h.directory_iff target]
    split
    · exact .failed _
    · next htarget =>
      have hroot : target ≠ [] := by
        rintro rfl
        exact htarget (by simp [get?])
      split
      · exact .failed _
      · exact .done _ _ ((h.erase place hplace).put target hroot item)

theorem publish_twins (h : Twins s s' t t') (d : Disk) (place : Place) (hplace : place ≠ [])
    (source path : String) (content : List UInt8) :
    AnswersAlike (Twins s s') (publish d t place source path content)
      (publish d t' place source path content) := by
  unfold publish
  cases d.attempt "write" source (.ok content) with
  | error f => exact .intro _ _ _ (h.put place hplace _)
  | ok content =>
    have hwritten := h.put place hplace (.file content privateMode)
    dsimp only
    cases d.attempt "chmod" source (.ok publicMode) with
    | error f => exact .intro _ _ _ hwritten
    | ok mode =>
      have hpublic := hwritten.put place hplace (.file content mode)
      dsimp only
      cases d.attempt "close" source (.ok ()) with
      | error f => exact .intro _ _ _ hpublic
      | ok _ =>
        have hmoved := (hpublic.move_endsAlike place hplace (.file content mode)
          (by rw [get?_put _ place place _ hplace, if_pos rfl])
          (by rw [get?_put _ place place _ hplace, if_pos rfl]) path).attempt d "rename" source
        dsimp only
        generalize d.attempt "rename" source (move _ place path) = x at hmoved ⊢
        generalize d.attempt "rename" source (move _ place path) = x' at hmoved ⊢
        cases hmoved with
        | failed f => exact .intro _ _ _ hpublic
        | done u u' hafter => exact .intro _ _ _ hafter

theorem replaceOn_twins (h : Twins s s' t t') (d : Disk) (numbers : List Nat) (path : String)
    (content : List UInt8) :
    AnswersAlike (Twins s s') (replaceOn d t numbers path content)
      (replaceOn d t' numbers path content) := by
  have hdirectories := h.makeMissing_twins d (Path.ofText path).directory.absolute false
    (Path.ofText path).directory.names.reverse
  unfold replaceOn makeDirectoriesOn
  dsimp only
  generalize makeMissing d t _ false _ = made at hdirectories ⊢
  generalize makeMissing d t' _ false _ = made' at hdirectories ⊢
  obtain ⟨t₁, t₁', answer, hmade⟩ := hdirectories
  cases answer with
  | error f => exact .intro _ _ _ hmade
  | ok _ =>
    dsimp only
    rw [hmade.temporary_eq d numbers]
    cases htemporary : temporary d t₁ numbers (Path.ofText path).directory (Path.ofText path).name with
    | error f => exact .intro _ _ _ hmade
    | ok found =>
      obtain ⟨source, place⟩ := found
      have hvacant := temporary_vacant d t₁ numbers _ _ source place htemporary
      have hplace := ne_nil_of_vacant t₁ place hvacant
      have hpublished := (hmade.put place hplace (.file [] privateMode)).publish_twins d place hplace
        source path content
      dsimp only
      generalize publish d (t₁.put place _) place source path content = ended at hpublished ⊢
      generalize publish d (t₁'.put place _) place source path content = ended' at hpublished ⊢
      obtain ⟨t₂, t₂', answer, hended⟩ := hpublished
      cases answer with
      | error e => exact .intro _ _ _ (hended.erase place hplace)
      | ok _ => exact .intro _ _ _ hended

end Twins

theorem twins_of_sameBut (place : Place) (t t' : FileTree) (hsame : SameBut place t t')
    (hfiles : BothFiles t t' place) : Twins t t' t t' := by
  refine ⟨hsame.working, fun q => ?_⟩
  by_cases hq : q = place
  · subst hq
    exact .inr ⟨hfiles, rfl, rfl⟩
  · exact .inl (hsame.items q hq)

/-! ### Files -/

theorem get?_of_read (t : FileTree) (path : String) (place : Place) (bytes : List UInt8)
    (hplace : t.resolve path = .ok place) (hread : t.read path = .ok bytes) :
    ∃ mode, t.get? place = some (.file bytes mode) := by
  unfold read stat at hread
  rw [hplace] at hread
  simp only [bind, Except.bind] at hread
  cases hitem : t.get? place with
  | none =>
    rw [hitem] at hread
    cases hread
  | some i =>
    cases i with
    | directory =>
      rw [hitem] at hread
      cases hread
    | file content mode =>
      rw [hitem] at hread
      dsimp only at hread
      split at hread
      · cases hread
      · cases hread
      · next hstat =>
        split at hstat
        · cases hstat
        · cases hstat
          cases hread
          exact ⟨mode, rfl⟩

/-- Another content of a file that is read. -/
theorem twins_of_read (t t' : FileTree) (path : String) (place : Place) (bytes bytes' : List UInt8)
    (hplace : t.resolve path = .ok place) (hsame : SameBut place t t')
    (hread : t.read path = .ok bytes) (hread' : t'.read path = .ok bytes') : Twins t t' t t' := by
  obtain ⟨mode, hitem⟩ := t.get?_of_read path place bytes hplace hread
  -- the way to the file leads through directories, so not through the file
  have hdirectories : ∀ q, t.get? q = some .directory → t'.get? q = some .directory := by
    intro q hq
    rw [hsame.items q, hq]
    rintro rfl
    rw [hitem] at hq
    cases hq
  have hplace' := resolve_of_directories t t' hsame.working hdirectories path place hplace
  obtain ⟨mode', hitem'⟩ := t'.get?_of_read path place bytes' hplace' hread'
  exact twins_of_sameBut place t t' hsame ⟨bytes, mode, bytes', mode', hitem, hitem'⟩

theorem stat_of_replaceOn (t u : FileTree) (d : Disk) (numbers : List Nat) (path : String)
    (content : List UInt8) (h : replaceOn d t numbers path content = (u, .ok ())) :
    u.stat path = .ok (.file content 0o644) := by
  rcases replaceOn_cases d t numbers path content with
    ⟨u', e, heq, -⟩ | ⟨u', target, heq, -, hstat, -⟩
  · cases h.symm.trans heq
  · cases h.symm.trans heq
    exact hstat

/-- The content and the permissions of the file at a place. -/
def fileAt? (t : FileTree) (q : Place) : Option (List UInt8 × Nat) :=
  match t.get? q with
  | some (.file content mode) => some (content, mode)
  | _ => none

/-- Two trees come from two others by the same changes of files: a place has the same file in both, or
each has the file that it had. -/
def SameFiles (s s' t t' : FileTree) : Prop :=
  ∀ q, t'.fileAt? q = t.fileAt? q ∨ t.fileAt? q = s.fileAt? q ∧ t'.fileAt? q = s'.fileAt? q

theorem fileAt?_congr (t t' : FileTree) (q : Place) (h : t'.get? q = t.get? q) :
    t'.fileAt? q = t.fileAt? q := by
  rw [fileAt?, fileAt?, h]

theorem Twins.sameFiles {s s' t t' : FileTree} (h : Twins s s' t t') : SameFiles s s' t t' := by
  intro q
  rcases h.items q with hsame | ⟨-, hleft, hright⟩
  · exact .inl (fileAt?_congr t t' q hsame)
  · exact .inr ⟨fileAt?_congr s t q hleft, fileAt?_congr s' t' q hright⟩

/-- New directories are no files. -/
theorem Keeps.fileAt?_eq {path : String} {t t' : FileTree} {q : Place} (h : Keeps path t t' q) :
    t'.fileAt? q = t.fileAt? q := by
  rcases h with hsame | ⟨hvacant, hmade, -⟩
  · exact fileAt?_congr t t' q hsame
  · rw [fileAt?, fileAt?, hvacant, hmade]

end Netscribe.FileTree
