import Netscribe.FileTree.Path

/-!
# Paths and their texts

The names of a path are never empty and hold no slash, and reading the text of a path with such names
gives these names again.
-/

namespace Netscribe.Path

def IsName (s : String) : Prop := s ≠ "" ∧ '/' ∉ s.toList

theorem pieces_of_no_slash (cs : List Char) (h : '/' ∉ cs) : pieces cs = [cs] := by
  induction cs with
  | nil => rfl
  | cons c rest ih =>
    obtain ⟨hc, hrest⟩ : '/' ≠ c ∧ '/' ∉ rest := by simpa using h
    simp [pieces, hc.symm, ih hrest]

theorem pieces_append_slash (cs rest : List Char) (h : '/' ∉ cs) :
    pieces (cs ++ '/' :: rest) = cs :: pieces rest := by
  induction cs with
  | nil => simp [pieces]
  | cons c cs ih =>
    obtain ⟨hc, hcs⟩ : '/' ≠ c ∧ '/' ∉ cs := by simpa using h
    simp [pieces, hc.symm, ih hcs]

theorem no_slash_of_mem_pieces (cs piece : List Char) (h : piece ∈ pieces cs) : '/' ∉ piece := by
  induction cs generalizing piece with
  | nil =>
    obtain rfl : piece = [] := by simpa [pieces] using h
    simp
  | cons c rest ih =>
    rw [pieces] at h
    split at h
    · rcases List.mem_cons.mp h with rfl | hmem
      · simp
      · exact ih piece hmem
    · next hc =>
      have hslash : '/' ≠ c := fun heq => hc heq.symm
      split at h
      · obtain rfl : piece = [c] := by simpa using h
        simpa using hslash
      · next first more hpieces =>
        rcases List.mem_cons.mp h with rfl | hmem
        · have hfirst := ih first (by rw [hpieces]; simp)
          simp [hslash, hfirst]
        · exact ih piece (by rw [hpieces]; exact List.mem_cons_of_mem _ hmem)

/-! ### Names that are read -/

theorem isName_ofText (s name : String) (h : name ∈ (ofText s).names) : IsName name := by
  obtain ⟨piece, hpiece, rfl⟩ := List.mem_map.mp h
  obtain ⟨hmem, hne⟩ := List.mem_filter.mp hpiece
  refine ⟨?_, ?_⟩
  · intro hempty
    have hnil : piece = [] := by simpa using congrArg String.toList hempty
    simp [hnil] at hne
  · rw [String.toList_ofList]
    exact no_slash_of_mem_pieces s.toList piece hmem

theorem isName_cleanName (absolute : Bool) (done : List String) (name : String)
    (hdone : ∀ n ∈ done, IsName n) (hname : IsName name) :
    ∀ n ∈ cleanName absolute done name, IsName n := by
  have hparent : IsName ".." := ⟨by decide, by decide⟩
  unfold cleanName
  split
  · exact hdone
  · split
    · cases done with
      | nil =>
        cases absolute with
        | true => simp
        | false => simpa using hparent
      | cons last above =>
        obtain ⟨hlast, habove⟩ := List.forall_mem_cons.mp hdone
        dsimp only
        split
        · exact List.forall_mem_cons.mpr ⟨hparent, hdone⟩
        · exact habove
    · exact List.forall_mem_cons.mpr ⟨hname, hdone⟩

theorem isName_clean (p : Path) (h : ∀ n ∈ p.names, IsName n) : ∀ n ∈ p.clean.names, IsName n := by
  have hfold : ∀ (names done : List String), (∀ n ∈ names, IsName n) → (∀ n ∈ done, IsName n) →
      ∀ n ∈ names.foldl (cleanName p.absolute) done, IsName n := by
    intro names
    induction names with
    | nil => exact fun done _ hdone => hdone
    | cons name rest ih =>
      intro done hnames hdone
      obtain ⟨hname, hrest⟩ := List.forall_mem_cons.mp hnames
      exact ih _ hrest (isName_cleanName p.absolute done name hdone hname)
  intro n hn
  exact hfold p.names [] h (by simp) n (List.mem_reverse.mp hn)

theorem isName_directory (s : String) : ∀ n ∈ (ofText s).directory.names, IsName n := by
  apply isName_clean
  intro n hn
  dsimp only at hn
  split at hn
  · exact isName_ofText s n hn
  · exact isName_ofText s n (List.dropLast_subset _ hn)

/-! ### Names that are written -/

def namesOf (cs : List Char) : List String :=
  ((pieces cs).filter (!·.isEmpty)).map String.ofList

theorem namesOf_join (names : List String) (slash : Bool) (h : ∀ n ∈ names, IsName n) :
    namesOf ((join "/" names).toList ++ if slash then ['/'] else []) = names := by
  induction names with
  | nil => cases slash <;> rfl
  | cons name rest ih =>
    obtain ⟨⟨hne, hslash⟩, hrest⟩ := List.forall_mem_cons.mp h
    have hfirst : name.toList.isEmpty = false := by simpa using hne
    cases rest with
    | nil =>
      cases slash with
      | true => simp [namesOf, join, pieces_append_slash _ _ hslash, pieces, hfirst]
      | false => simp [namesOf, join, pieces_of_no_slash _ hslash, hfirst]
    | cons second more =>
      have hrest := ih hrest
      rw [namesOf] at hrest ⊢
      rw [join, String.toList_append, String.toList_append]
      · have hsep : "/".toList = ['/'] := rfl
        rw [hsep, List.append_assoc, List.append_assoc, List.singleton_append,
          pieces_append_slash _ _ hslash]
        simp [hfirst, hrest]
      · simp

theorem head_join (names : List String) (hne : names ≠ []) (h : ∀ n ∈ names, IsName n) :
    ∃ c rest, (join "/" names).toList = c :: rest ∧ c ≠ '/' := by
  cases names with
  | nil => exact absurd rfl hne
  | cons name rest =>
    obtain ⟨hname, hslash⟩ := h name (List.mem_cons_self ..)
    cases hchars : name.toList with
    | nil => exact absurd (String.toList_eq_nil_iff.mp hchars) hname
    | cons c more =>
      have hc : c ≠ '/' := by
        rintro rfl
        rw [hchars] at hslash
        simp at hslash
      cases rest with
      | nil => exact ⟨c, more, hchars, hc⟩
      | cons second others =>
        refine ⟨c, more ++ ("/" ++ join "/" (second :: others)).toList, ?_, hc⟩
        rw [join, String.toList_append, hchars, List.cons_append]
        simp

theorem toList_text (p : Path) (hne : p.names ≠ []) :
    p.text.toList = (if p.absolute then ['/'] else []) ++
      ((join "/" p.names).toList ++ if p.slash then ['/'] else []) := by
  have hnames : p.names.isEmpty = false := by simpa using hne
  have hslash : ∀ b : Bool, (if b then "/" else "").toList = if b then ['/'] else [] := by
    intro b
    cases b <;> rfl
  simp only [text, hnames, Bool.false_eq_true, if_false, String.toList_append, hslash,
    List.append_assoc]

/-- The text of a path with names is read as a path with these names. -/
theorem ofText_text (p : Path) (hne : p.names ≠ []) (h : ∀ n ∈ p.names, IsName n) :
    (ofText p.text).names = p.names ∧ (ofText p.text).absolute = p.absolute := by
  have hjoined := namesOf_join p.names p.slash h
  obtain ⟨c, rest, hhead, hc⟩ := head_join p.names hne h
  have hnames : (ofText p.text).names = namesOf p.text.toList := rfl
  have habsolute : (ofText p.text).absolute = (p.text.toList.head? == some '/') := rfl
  rw [hnames, habsolute, toList_text p hne]
  cases p.absolute with
  | true =>
    refine ⟨?_, rfl⟩
    have hleading : ∀ cs, namesOf (['/'] ++ cs) = namesOf cs := by
      intro cs
      simp [namesOf, pieces]
    exact (hleading _).trans hjoined
  | false =>
    refine ⟨hjoined, ?_⟩
    rw [hhead]
    simpa using hc

end Netscribe.Path
