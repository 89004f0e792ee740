import Netscribe.Generation
import Netscribe.Proofs.Outcome
import Netscribe.Proofs.Utf8
import Netscribe.Samples

/-!
# Class names are legal

The scan of a name goes through its characters, with their offsets and the classes of Unicode, and
accepts exactly the bytes of the form `[A-Za-z_][A-Za-z0-9_]*` (`spellsIdentifier_iff`). The name and
the identifier made from it are both scanned before they are taken, so a class name is legal if the
fallback is, whatever makes identifiers of names. A pass keeps the class name that it starts with
(`run_className`), so the module of a graph has a legal one.
-/

namespace Netscribe

namespace Naming

/-- A byte of the class `[A-Za-z_]`. -/
def IsStartByte (b : UInt8) : Prop :=
  (65 ≤ b.toNat ∧ b.toNat ≤ 90) ∨ (97 ≤ b.toNat ∧ b.toNat ≤ 122) ∨ b.toNat = 95

def IsWordByte (b : UInt8) : Prop := IsStartByte b ∨ (48 ≤ b.toNat ∧ b.toNat ≤ 57)

/-- The bytes have the form `[A-Za-z_][A-Za-z0-9_]*`. -/
def HasIdentifierForm (name : List UInt8) : Prop :=
  ∃ first rest, name = first :: rest ∧ IsStartByte first ∧ ∀ b ∈ rest, IsWordByte b

/-- A class can have this name: it is an identifier and no reserved word. -/
structure IsLegal (name : List UInt8) : Prop where
  identifier : HasIdentifierForm name
  no_keyword : ∀ word ∈ keywords, name ≠ Utf8.encode word

/-! ### Classes of ASCII characters -/

theorem within_append_of_lt (rs more : List (Nat × Nat)) (n : Nat) (h : ∀ r ∈ more, n < r.1) :
    Category.within (rs ++ more) n = Category.within rs n := by
  have hmore : more.any (fun r => decide (r.1 ≤ n) && decide (n ≤ r.2)) = false := by
    rw [List.any_eq_false]
    intro r hr
    have hlt := h r hr
    simp only [Bool.and_eq_true, decide_eq_true_eq]
    omega
  rw [Category.within, List.any_append, hmore, Bool.or_false]
  rfl

/-- All letters but those of the first two ranges lie beyond ASCII. -/
theorem isLetter_iff_of_ascii (c : Char) (h : c.toNat < 0x7F) :
    Category.isLetter c = true ↔
      (65 ≤ c.toNat ∧ c.toNat ≤ 90) ∨ (97 ≤ c.toNat ∧ c.toNat ≤ 122) := by
  have hsplit : Category.letterRanges =
      [(0x41, 0x5A), (0x61, 0x7A)] ++ Category.letterRanges.drop 2 := rfl
  have hbeyond : ∀ r ∈ Category.letterRanges.drop 2, 0x7F < r.1 := by decide +kernel
  have hlt : ∀ r ∈ Category.letterRanges.drop 2, c.toNat < r.1 := fun r hr =>
    Nat.lt_trans h (hbeyond r hr)
  rw [Category.isLetter, hsplit, within_append_of_lt _ _ _ hlt]
  simp [Category.within]

/-- All digits but those of the first range lie beyond ASCII. -/
theorem isDigit_iff_of_ascii (c : Char) (h : c.toNat < 0x7F) :
    Category.isDigit c = true ↔ 48 ≤ c.toNat ∧ c.toNat ≤ 57 := by
  have hsplit : Category.digitRanges = [(0x30, 0x39)] ++ Category.digitRanges.drop 1 := rfl
  have hbeyond : ∀ r ∈ Category.digitRanges.drop 1, 0x7F < r.1 := by decide +kernel
  have hlt : ∀ r ∈ Category.digitRanges.drop 1, c.toNat < r.1 := fun r hr =>
    Nat.lt_trans h (hbeyond r hr)
  rw [Category.isDigit, hsplit, within_append_of_lt _ _ _ hlt]
  simp [Category.within]

theorem startsIdentifier_iff (c : Char) :
    startsIdentifier c = true ↔
      (65 ≤ c.toNat ∧ c.toNat ≤ 90) ∨ (97 ≤ c.toNat ∧ c.toNat ≤ 122) ∨ c.toNat = 95 := by
  have hletter : c.isAlpha = (decide (65 ≤ c.toNat ∧ c.toNat ≤ 90) ||
      (decide (97 ≤ c.toNat) && decide (c.toNat ≤ 122))) := rfl
  have hunderscore : c = '_' ↔ c.toNat = 95 := Char.toNat_inj.symm
  simp only [startsIdentifier, hletter, Bool.or_eq_true, Bool.and_eq_true, decide_eq_true_eq,
    beq_iff_eq, hunderscore, or_assoc]

theorem continuesIdentifier_iff (c : Char) :
    continuesIdentifier c = true ↔
      ((65 ≤ c.toNat ∧ c.toNat ≤ 90) ∨ (97 ≤ c.toNat ∧ c.toNat ≤ 122) ∨ c.toNat = 95) ∨
        (48 ≤ c.toNat ∧ c.toNat ≤ 57) := by
  rw [continuesIdentifier, Bool.or_eq_true, startsIdentifier_iff, Char.isDigit_iff_toNat]
  rfl

/-- What the scan takes for the start of an identifier is one. -/
theorem scan_start_eq (c : Char) :
    (c == '_' || (isAscii c && Category.isLetter c)) = startsIdentifier c := by
  have hunderscore : c = '_' ↔ c.toNat = 95 := Char.toNat_inj.symm
  rw [Bool.eq_iff_iff, startsIdentifier_iff]
  simp only [isAscii, Bool.or_eq_true, Bool.and_eq_true, decide_eq_true_eq, beq_iff_eq, hunderscore]
  constructor
  · intro h
    obtain hc | ⟨hascii, hletter⟩ := h
    · omega
    · have hrange := (isLetter_iff_of_ascii c hascii).mp hletter
      omega
  · intro hrange
    by_cases hc : c.toNat = 95
    · exact .inl hc
    · exact .inr ⟨by omega, (isLetter_iff_of_ascii c (by omega)).mpr (by omega)⟩

theorem scan_digit_eq (c : Char) : (isAscii c && Category.isDigit c) = c.isDigit := by
  rw [Bool.eq_iff_iff, Char.isDigit_iff_toNat]
  simp only [isAscii, Bool.and_eq_true, decide_eq_true_eq]
  constructor
  · intro h
    obtain ⟨hascii, hdigit⟩ := h
    exact (isDigit_iff_of_ascii c hascii).mp hdigit
  · intro hrange
    have hascii : c.toNat < 0x7F := by
      have hle : c.toNat ≤ 57 := hrange.2
      omega
    exact ⟨hascii, (isDigit_iff_of_ascii c hascii).mpr hrange⟩

/-! ### The scan -/

theorem scanFrom_cons (offset : Nat) (c : Char) (bs : List UInt8) (rest : List (Char × List UInt8)) :
    scanFrom offset ((c, bs) :: rest) =
      ((startsIdentifier c || (c.isDigit && offset != 0)) && scanFrom (offset + bs.length) rest) := by
  rw [scanFrom, scan_start_eq, scan_digit_eq]
  cases startsIdentifier c <;> cases c.isDigit <;> by_cases h : offset = 0 <;> simp [h]

/-- Behind the first character, digits are scanned like letters. -/
theorem scanFrom_of_pos (offset : Nat) (ps : List (Char × List UInt8)) (h : 0 < offset) :
    scanFrom offset ps = (ps.map (·.1)).all continuesIdentifier := by
  induction ps generalizing offset with
  | nil => rfl
  | cons p rest ih =>
    obtain ⟨c, bs⟩ := p
    have hne : (offset != 0) = true := by
      rw [bne_iff_ne]
      omega
    rw [scanFrom_cons, hne, Bool.and_true, ih (offset + bs.length) (by omega), List.map_cons,
      List.all_cons]
    rfl

/-- The scan looks at the characters that the bytes are read as. -/
theorem spellsIdentifier_eq (name : List UInt8) :
    spellsIdentifier name = isIdentifier (Utf8.decode name) := by
  cases name with
  | nil => rfl
  | cons a rest =>
    obtain ⟨c, bs, more, hpieces⟩ := Utf8.exists_pieces_cons a rest
    rw [spellsIdentifier, Utf8.decode, hpieces, scanFrom_cons, scanFrom_of_pos _ more (by simp)]
    simp [isIdentifier]

/-! ### The form of an identifier -/

theorem startsIdentifier_byte_iff (b : UInt8) (h : b.toNat < 0x80) :
    startsIdentifier (Char.ofNat b.toNat) = true ↔ IsStartByte b := by
  rw [startsIdentifier_iff, Utf8.toNat_ofNat_of_valid b.toNat (by omega)]
  rfl

theorem continuesIdentifier_byte_iff (b : UInt8) (h : b.toNat < 0x80) :
    continuesIdentifier (Char.ofNat b.toNat) = true ↔ IsWordByte b := by
  rw [continuesIdentifier_iff, Utf8.toNat_ofNat_of_valid b.toNat (by omega)]
  rfl

theorem IsStartByte.ascii {b : UInt8} (h : IsStartByte b) : b.toNat < 0x80 := by
  unfold IsStartByte at h
  omega

theorem IsWordByte.ascii {b : UInt8} (h : IsWordByte b) : b.toNat < 0x80 := by
  rcases h with h | h
  · exact h.ascii
  · omega

theorem HasIdentifierForm.ascii {name : List UInt8} (h : HasIdentifierForm name) :
    ∀ b ∈ name, b.toNat < 0x80 := by
  obtain ⟨first, rest, rfl, hfirst, hrest⟩ := h
  rw [List.forall_mem_cons]
  exact ⟨hfirst.ascii, fun b hb => (hrest b hb).ascii⟩

theorem all_continues_decode_iff (bs : List UInt8) :
    (Utf8.decode bs).all continuesIdentifier = true ↔ ∀ b ∈ bs, IsWordByte b := by
  induction bs with
  | nil => simp [Utf8.decode, Utf8.pieces, Utf8.piecesFrom]
  | cons b rest ih =>
    rw [List.forall_mem_cons]
    by_cases hb : b.toNat < 0x80
    · rw [Utf8.decode_ascii b rest hb, List.all_cons, Bool.and_eq_true,
        continuesIdentifier_byte_iff b hb, ih]
    · -- such a byte is read as a character beyond ASCII, if need be together with bytes behind it
      obtain ⟨c, cs, hdecode, hc⟩ := Utf8.exists_decode_cons b rest (by omega)
      rw [hdecode, List.all_cons, Bool.and_eq_true, continuesIdentifier_iff]
      constructor
      · intro h
        obtain ⟨hrange, -⟩ := h
        omega
      · intro h
        exact absurd h.1.ascii hb

/-- The bytes spell an identifier exactly if they have the form of one. -/
theorem spellsIdentifier_iff (name : List UInt8) :
    spellsIdentifier name = true ↔ HasIdentifierForm name := by
  rw [spellsIdentifier_eq]
  cases name with
  | nil =>
    simp [HasIdentifierForm, isIdentifier, Utf8.decode, Utf8.pieces, Utf8.piecesFrom]
  | cons b rest =>
    have hform : HasIdentifierForm (b :: rest) ↔ IsStartByte b ∧ ∀ d ∈ rest, IsWordByte d := by
      constructor
      · intro h
        obtain ⟨first, more, heq, hfirst, hmore⟩ := h
        obtain ⟨rfl, rfl⟩ := List.cons.inj heq
        exact ⟨hfirst, hmore⟩
      · intro h
        exact ⟨b, rest, rfl, h⟩
    rw [hform]
    by_cases hb : b.toNat < 0x80
    · rw [Utf8.decode_ascii b rest hb, isIdentifier, Bool.and_eq_true,
        startsIdentifier_byte_iff b hb, all_continues_decode_iff]
    · obtain ⟨c, cs, hdecode, hc⟩ := Utf8.exists_decode_cons b rest (by omega)
      rw [hdecode, isIdentifier, Bool.and_eq_true, startsIdentifier_iff]
      constructor
      · intro h
        obtain ⟨hrange, -⟩ := h
        omega
      · intro h
        exact absurd h.1.ascii hb

/-! ### Class names by their bytes -/

theorem spellsKeyword_iff (name : List UInt8) :
    spellsKeyword name = true ↔ ∃ word ∈ keywords, name = Utf8.encode word := by
  rw [spellsKeyword, List.contains_iff_mem, List.mem_map]
  simp only [eq_comm]

theorem spellsClassName_iff (name : List UInt8) : spellsClassName name = true ↔ IsLegal name := by
  rw [spellsClassName, Bool.and_eq_true, spellsIdentifier_iff, Bool.not_eq_true',
    ← Bool.not_eq_true, spellsKeyword_iff]
  constructor
  · intro h
    obtain ⟨hform, hkeyword⟩ := h
    exact ⟨hform, fun word hword heq => hkeyword ⟨word, hword, heq⟩⟩
  · intro h
    exact ⟨h.identifier, fun ⟨word, hword, heq⟩ => h.no_keyword word hword heq⟩

section ClassNameBy

variable (identifier : List UInt8 → List UInt8) (name fallback : List UInt8)

/-- A legal name is kept. -/
theorem classNameBy_of_isLegal (h : IsLegal name) : classNameBy identifier name fallback = name :=
  if_pos ((spellsClassName_iff name).mpr h)

/-- What is taken in place of a name is checked, too. -/
theorem isLegal_classNameBy (h : IsLegal fallback) :
    IsLegal (classNameBy identifier name fallback) := by
  unfold classNameBy
  split
  · next hname => exact (spellsClassName_iff name).mp hname
  · split
    · next hidentifier => exact (spellsClassName_iff _).mp hidentifier
    · exact h

end ClassNameBy

/-! ### Class names of texts -/

theorem spellsClassName_encode (s : String) : spellsClassName (Utf8.encode s) = isClassName s := by
  have hkeyword : spellsKeyword (Utf8.encode s) = isKeyword s := by
    rw [Bool.eq_iff_iff, spellsKeyword_iff, isKeyword, List.contains_iff_mem]
    constructor
    · intro h
      obtain ⟨word, hword, heq⟩ := h
      rwa [Utf8.encode_injective s word heq]
    · intro hmem
      exact ⟨s, hmem, rfl⟩
  rw [spellsClassName, spellsIdentifier_eq, Utf8.decode_encode, hkeyword, isClassName]

theorem className_eq (name fallback : String) :
    className name fallback =
      if isClassName name then name
      else if isClassName (identifierFrom name) then identifierFrom name
      else fallback := by
  rw [className, classNameBy, identifierBytes, Utf8.text_encode, spellsClassName_encode,
    spellsClassName_encode]
  split
  · rw [Utf8.text_encode]
  · split <;> rw [Utf8.text_encode]

end Naming

namespace Generation

/-! ### The class name of a module -/

theorem isLegal_defaultClassName : Naming.IsLegal (Utf8.encode defaultClassName) :=
  (Naming.spellsClassName_iff _).mp (by decide +kernel)

theorem isLegal_classNameBy (identifier : List UInt8 → List UInt8) (option name : List UInt8) :
    Naming.IsLegal (classNameBy identifier option name) :=
  Naming.isLegal_classNameBy identifier _ _ isLegal_defaultClassName

theorem add_className (m m' : Module Assignment) (init use : Option (Statement Assignment))
    (h : m.add init use = .ok m') : m'.className = m.className := by
  unfold Module.add at h
  split at h
  · cases h
  · split at h
    · cases h
    · cases h
      rfl

theorem step_className (o : Options) (p p' : Progress) (n : Node) (route : Route)
    (h : p.step o n = .ok (p', route)) : p'.body.className = p.body.className := by
  obtain ⟨⟨state, emission⟩, -, h⟩ := exists_of_bind_eq_ok h
  obtain ⟨body, hadd, h⟩ := exists_of_bind_eq_ok h
  cases h
  exact add_className _ _ _ _ (eq_ok_of_mapError hadd)

/-- No node changes the class name of the module. -/
theorem run_className (o : Options) (p p' : Progress) (nodes : List Node)
    (h : (p.run o nodes).2 = .ok p') : p'.body.className = p.body.className := by
  induction nodes generalizing p with
  | nil =>
    cases h
    rfl
  | cons n rest ih =>
    unfold Progress.run at h
    cases hstep : p.step o n with
    | error e =>
      rw [hstep] at h
      cases h
    | ok r =>
      obtain ⟨q, route⟩ := r
      rw [hstep] at h
      rw [ih q h, step_className o p q n route hstep]

theorem traceAs_className (o : Options) (className : String) (g : Graph) (m : Module Assignment)
    (h : (traceAs o className g).2 = .ok m) : m.className = className := by
  obtain ⟨p, hrun, h⟩ := exists_of_bind_eq_ok h
  obtain ⟨outputs, -, h⟩ := exists_of_bind_eq_ok (eq_ok_of_mapError h)
  obtain ⟨returns, -, h⟩ := exists_of_bind_eq_ok h
  cases h
  exact run_className o _ p g.nodes hrun

/-- The class name of a module has the bytes that were chosen for it. -/
theorem encode_className (identifier : List UInt8 → List UInt8) (option name : List UInt8)
    (o : Options) (g : Graph) (m : Module Assignment)
    (h : buildBy identifier option name o g = .ok m) :
    Utf8.encode m.className = classNameBy identifier option name := by
  rw [traceAs_className o _ g m h]
  exact Utf8.encode_text_of_ascii _ (isLegal_classNameBy identifier option name).identifier.ascii

/-- A graph and options whose names are texts are a case of names that are any bytes. -/
theorem build_eq_buildBy (o : Options) (g : Graph) :
    build o g =
      buildBy Naming.identifierBytes (Utf8.encode o.className) (Utf8.encode g.name) o g := by
  have hname : className o g = Utf8.text (classNameBy Naming.identifierBytes
      (Utf8.encode o.className) (Utf8.encode g.name)) := by
    rw [className, classNameBy, Naming.className, Utf8.isEmpty_encode]
    split <;> rfl
  rw [buildBy, ← hname]
  rfl

/-- The scan accepts exactly the bytes of the form of an identifier. Whatever makes identifiers of
names, the module of a graph has a legal class name, and it is the one of the options, or the name of the
graph if the options have none, where that one is legal. With a legal fallback, the class name for any
name is legal and its own class name. -/
theorem class_names_legal (identifier : List UInt8 → List UInt8) :
    (∀ name, Naming.spellsIdentifier name = true ↔ Naming.HasIdentifierForm name) ∧
      (∀ option name o g m, buildBy identifier option name o g = .ok m →
        Naming.IsLegal (Utf8.encode m.className) ∧
          (option ≠ [] → Naming.IsLegal option → Utf8.encode m.className = option) ∧
          (option = [] → Naming.IsLegal name → Utf8.encode m.className = name)) ∧
      (∀ o g, build o g =
        buildBy Naming.identifierBytes (Utf8.encode o.className) (Utf8.encode g.name) o g) ∧
      ∀ name fallback, Naming.IsLegal fallback →
        Naming.IsLegal (Naming.classNameBy identifier name fallback) ∧
          Naming.classNameBy identifier (Naming.classNameBy identifier name fallback) fallback =
            Naming.classNameBy identifier name fallback := by
  refine ⟨Naming.spellsIdentifier_iff, fun option name o g m h => ?_, build_eq_buildBy,
    fun name fallback hfallback => ?_⟩
  · rw [encode_className identifier option name o g m h]
    refine ⟨isLegal_classNameBy identifier option name, fun hne hlegal => ?_, ?_⟩
    · have hchosen : (if option.isEmpty then name else option) = option := if_neg (by simpa using hne)
      rw [classNameBy, hchosen]
      exact Naming.classNameBy_of_isLegal identifier option _ hlegal
    · rintro rfl hlegal
      exact Naming.classNameBy_of_isLegal identifier name _ hlegal
  · have hlegal := Naming.isLegal_classNameBy identifier name fallback hfallback
    exact ⟨hlegal, Naming.classNameBy_of_isLegal identifier _ fallback hlegal⟩

/-- Bytes that are no text, a reserved word without a letter to capitalise, two legal names, and a name
of two words. -/
theorem odd_names_give_legal_class_names :
    (∃ m, buildBy Naming.identifierBytes [0xC3, 0x28] [] {} Sample.linearActivation = .ok m ∧
        m.className = "Val" ∧ Naming.IsLegal (Utf8.encode m.className)) ∧
      (∃ m, buildBy Naming.identifierBytes [] (Utf8.encode "None") {} Sample.linearActivation =
          .ok m ∧ m.className = "Module" ∧ Naming.IsLegal (Utf8.encode m.className)) ∧
      (∃ m, buildBy Naming.identifierBytes (Utf8.encode "_Net2") [0xFF] {} Sample.linearActivation =
          .ok m ∧ Utf8.encode m.className = Utf8.encode "_Net2") ∧
      (∃ m, buildBy Naming.identifierBytes [] (Utf8.encode "net") {} Sample.linearActivation =
          .ok m ∧ Utf8.encode m.className = Utf8.encode "net") ∧
      Naming.classNameBy Naming.identifierBytes (Utf8.encode "my-net") (Utf8.encode "Model") =
        Utf8.encode "MyNet" ∧
      Naming.classNameBy Naming.identifierBytes (Naming.classNameBy Naming.identifierBytes
          (Utf8.encode "my-net") (Utf8.encode "Model")) (Utf8.encode "Model") =
        Naming.classNameBy Naming.identifierBytes (Utf8.encode "my-net") (Utf8.encode "Model") := by
  have hbuilt : ∀ option name, ∃ m,
      buildBy Naming.identifierBytes option name {} Sample.linearActivation = .ok m :=
    fun _ _ => ⟨_, rfl⟩
  have hlegal : ∀ name, Naming.spellsClassName name = true → Naming.IsLegal name :=
    fun name => (Naming.spellsClassName_iff name).mp
  obtain ⟨-, hmodule, -, hidempotent⟩ := class_names_legal Naming.identifierBytes
  obtain ⟨m₁, h₁⟩ := hbuilt [0xC3, 0x28] []
  obtain ⟨m₂, h₂⟩ := hbuilt [] (Utf8.encode "None")
  obtain ⟨m₃, h₃⟩ := hbuilt (Utf8.encode "_Net2") [0xFF]
  obtain ⟨m₄, h₄⟩ := hbuilt [] (Utf8.encode "net")
  obtain ⟨hlegal₁, -, -⟩ := hmodule _ _ _ _ m₁ h₁
  obtain ⟨hlegal₂, -, -⟩ := hmodule _ _ _ _ m₂ h₂
  obtain ⟨-, hoption, -⟩ := hmodule _ _ _ _ m₃ h₃
  obtain ⟨-, -, hname⟩ := hmodule _ _ _ _ m₄ h₄
  refine ⟨⟨m₁, h₁, ?_, hlegal₁⟩, ⟨m₂, h₂, ?_, hlegal₂⟩,
    ⟨m₃, h₃, hoption (by decide +kernel) (hlegal _ (by decide +kernel))⟩,
    ⟨m₄, h₄, hname rfl (hlegal _ (by decide +kernel))⟩, by decide +kernel,
    (hidempotent _ _ (hlegal _ (by decide +kernel))).2⟩
  · cases h₁
    decide +kernel
  · cases h₂
    decide +kernel

end Generation

end Netscribe
