import Netscribe.CommandLine.Plan
import Netscribe.Proofs.Config
import Netscribe.Proofs.TwinTrees

/-!
# Flags against the configuration file

A run with flags is compared with a run without them on a file that says what the flags say. After the
files are loaded, both runs have the same configuration and so the same plan, and the file trees differ
in the configuration file alone. But the first file is checked before the flags replace what it says.
So the runs agree unless that check refuses a file that the flags would have put right.
-/

namespace Netscribe

namespace Config

/-- The configuration that a document says, whether or not its values may stand. -/
def ofBytes (bytes : List UInt8) : Except Yaml.Error Config := do
  let t ← (Yaml.parse bytes).mapError .failure
  ofNode (t.map (·.unfolded depth))

theorem decode_of_ofBytes (bytes : List UInt8) (c : Config) (h : ofBytes bytes = .ok c) :
    decode bytes = (c.validate.mapError .rejected).map fun _ => c := by
  unfold ofBytes at h
  unfold decode
  cases hparse : Yaml.parse bytes with
  | error f =>
    rw [hparse] at h
    cases h
  | ok t =>
    rw [hparse] at h
    have hnode : ofNode (t.map (·.unfolded depth)) = .ok c := h
    simp only [bind, Except.bind, Except.mapError, hnode]
    cases c.validate with
    | error r => rfl
    | ok _ => rfl

end Config

namespace CommandLine

/-! ### Configurations -/

namespace Flags

/-- The configuration in which the flags that are given replace the variant, the output and the class
name. -/
def override (f : Flags) (c : Config) : Config :=
  { c with
    variant := orElse f.variant c.variant
    output := orElse f.output c.output
    className := orElse f.className c.className }

/-- The flags without those that override a configuration. -/
def withoutOverrides (f : Flags) : Flags := { f with variant := "", output := "", className := "" }

theorem applyTo_override (f : Flags) (c : Config) :
    f.withoutOverrides.applyTo (f.override c) = f.applyTo c := rfl

theorem valid_applyTo_iff (f : Flags) (c : Config) (hc : c.Valid) :
    (f.applyTo c).Valid ↔ (f.override c).Valid := by
  have hformat : (f.applyTo c).log.format = "" ∨ (f.applyTo c).log.format = "terminal" ∨
      (f.applyTo c).log.format = "json" := by
    unfold applyTo
    cases f.json with
    | true => exact .inr (.inr rfl)
    | false => exact hc.format
  constructor
  · intro h
    exact ⟨h.variant, hc.format, h.runtimeImport, h.fallbackModule⟩
  · intro h
    exact ⟨h.variant, hformat, h.runtimeImport, h.fallbackModule⟩

/-- The other flags replace nothing that is checked. -/
theorem validate_override (f : Flags) (c : Config) (hvariant : f.variant = "") :
    (f.override c).validate = c.validate := by
  have hsame : (f.override c).variant = c.variant := by
    rw [override, hvariant]
    rfl
  unfold Config.validate
  rw [hsame]
  rfl

end Flags

section

variable (s : Setting) (read : String → Except FileTree.Fault (List UInt8)) (f : Flags)
  (bytes : List UInt8) (c : Config)

theorem configOf_eq (hpath : f.config.isEmpty = false) (hread : read f.config = .ok bytes)
    (hc : Config.ofBytes bytes = .ok c) :
    configOf read f =
      (c.validate.mapError fun r => .inFile f.config (.rejected r)).map fun _ => c := by
  rw [configOf, hpath, hread]
  show load Config.decode f.config (.ok bytes) = _
  unfold load
  simp only [bind, Except.bind, Except.mapError, Config.decode_of_ofBytes bytes c hc]
  cases c.validate with
  | error r => rfl
  | ok _ => rfl

theorem planFlags_accepted (hpath : f.config.isEmpty = false) (hread : read f.config = .ok bytes)
    (hc : Config.ofBytes bytes = .ok c) (hvalid : c.validate = .ok ()) :
    planFlags s read f = planConfig s read (f.applyTo c) f.graph := by
  rw [planFlags, configOf_eq read f bytes c hpath hread hc, hvalid]
  rfl

theorem planFlags_rejected (hpath : f.config.isEmpty = false) (hread : read f.config = .ok bytes)
    (hc : Config.ofBytes bytes = .ok c) (r : Config.Rejection) (hinvalid : c.validate = .error r) :
    planFlags s read f = .done ⟨1, .json, [], [s!"{f.config}: {r.message}"]⟩ := by
  rw [planFlags, configOf_eq read f bytes c hpath hread hc, hinvalid]
  rfl

end

/-! ### Plans -/

/-- The plan ends with success exactly if it writes its file. -/
def Plan.SucceedsByWriting : Plan → Prop
  | done r => r.exitCode ≠ 0
  | write _ _ finish => ∀ result, (finish result).exitCode = 0 ↔ result = .ok ()

/-- Both plans write the same, or none of them writes. -/
inductive Plan.WritesAlike : Plan → Plan → Prop
  | done (r r' : Report) : WritesAlike (.done r) (.done r')
  | write (path : String) (content : List UInt8)
    (finish finish' : Except FileTree.ReplaceError Unit → Report) :
    WritesAlike (.write path content finish) (.write path content finish')

theorem planGraph_succeedsByWriting (l : Log) (c : Config) (p : Policy) (g : Graph) :
    (planGraph l c p g).SucceedsByWriting := by
  unfold planGraph
  dsimp only
  cases Delivery.content ⟨p, .default, c.className⟩ g with
  | error halt =>
    cases halt with
    | error e => exact Nat.one_ne_zero
    | panic message => exact Nat.succ_ne_zero 1
  | ok content =>
    intro result
    cases result with
    | error e => exact iff_of_false Nat.one_ne_zero nofun
    | ok _ => exact iff_of_true rfl rfl

theorem planConfig_succeedsByWriting (s : Setting)
    (read : String → Except FileTree.Fault (List UInt8)) (c : Config) (graph : String) :
    (planConfig s read c graph).SucceedsByWriting := by
  unfold planConfig
  dsimp only
  split
  · exact Nat.succ_ne_zero 1
  · split
    · exact Nat.one_ne_zero
    · next p _ =>
      split
      · exact Nat.one_ne_zero
      · next g _ => exact planGraph_succeedsByWriting (Log.start s c) c p g

theorem planFlags_succeedsByWriting (s : Setting)
    (read : String → Except FileTree.Fault (List UInt8)) (f : Flags) :
    (planFlags s read f).SucceedsByWriting := by
  unfold planFlags
  cases configOf read f with
  | error e => exact Nat.one_ne_zero
  | ok c => exact planConfig_succeedsByWriting s read (f.applyTo c) f.graph

theorem planGraph_writesAlike (l l' : Log) (c : Config) (p : Policy) (g : Graph) :
    (planGraph l c p g).WritesAlike (planGraph l' c p g) := by
  unfold planGraph
  dsimp only
  cases Delivery.content ⟨p, .default, c.className⟩ g with
  | error halt =>
    cases halt with
    | error e => exact .done _ _
    | panic message => exact .done _ _
  | ok content => exact .write _ _ _ _

/-- The setting changes the log only. -/
theorem planConfig_writesAlike (s s' : Setting)
    (read read' : String → Except FileTree.Fault (List UInt8)) (c : Config) (graph : String)
    (hgraph : read' graph = read graph) :
    (planConfig s read c graph).WritesAlike (planConfig s' read' c graph) := by
  unfold planConfig
  dsimp only
  rw [hgraph]
  split
  · exact .done _ _
  · split
    · exact .done _ _
    · next p _ =>
      split
      · exact .done _ _
      · next g _ => exact planGraph_writesAlike (Log.start s c) (Log.start s' c) c p g

theorem planConfig_of_invalid (s : Setting) (read : String → Except FileTree.Fault (List UInt8))
    (c : Config) (graph : String) (hinvalid : ¬ c.Valid) :
    ∃ r, planConfig s read c graph = .done r := by
  unfold planConfig
  dsimp only
  split
  · exact ⟨_, rfl⟩
  · cases hpolicy : c.policy with
    | error r => exact ⟨_, rfl⟩
    | ok p => exact absurd (c.policy_yields.holds hpolicy) hinvalid

/-! ### Runs -/

theorem carryOut_write (t u : FileTree) (numbers : List Nat) (path : String) (content : List UInt8)
    (finish : Except FileTree.ReplaceError Unit → Report) (answer : Except FileTree.ReplaceError Unit)
    (h : FileTree.replaceOn .sound t numbers path content = (u, answer)) :
    (Plan.write path content finish).carryOut t numbers = (u, finish answer) := by
  rw [Plan.carryOut, FileTree.replace, h]

/-- Two runs on two trees: both succeed or both fail, they change the same files in the same way, and
where they succeed they have written the same output. -/
structure SameResult (t t' : FileTree) (x x' : FileTree × Report) : Prop where
  success : x.2.exitCode = 0 ↔ x'.2.exitCode = 0
  files : FileTree.SameFiles t t' x.1 x'.1
  output : x.2.exitCode = 0 → ∃ path content,
    x.1.stat path = .ok (.file content 0o644) ∧ x'.1.stat path = .ok (.file content 0o644)

theorem files_kept_of_failed (t : FileTree) (numbers : List Nat) (p : Plan)
    (hp : p.SucceedsByWriting) (hfailed : (p.carryOut t numbers).2.exitCode ≠ 0) (q : Place) :
    (p.carryOut t numbers).1.fileAt? q = t.fileAt? q := by
  cases p with
  | done r => rfl
  | write path content finish =>
    rcases FileTree.replaceOn_cases .sound t numbers path content with
      ⟨u, e, heq, hkeeps⟩ | ⟨u, target, heq, -⟩
    · rw [carryOut_write t u numbers path content finish _ heq]
      exact (hkeeps q).fileAt?_eq
    · rw [carryOut_write t u numbers path content finish _ heq] at hfailed
      exact absurd ((hp (.ok ())).mpr rfl) hfailed

theorem sameResult_of_failed (t t' : FileTree) (numbers : List Nat) (p p' : Plan)
    (hp : p.SucceedsByWriting) (hp' : p'.SucceedsByWriting)
    (hfailed : (p.carryOut t numbers).2.exitCode ≠ 0)
    (hfailed' : (p'.carryOut t' numbers).2.exitCode ≠ 0) :
    SameResult t t' (p.carryOut t numbers) (p'.carryOut t' numbers) where
  success := iff_of_false hfailed hfailed'
  files q := .inr ⟨files_kept_of_failed t numbers p hp hfailed q,
    files_kept_of_failed t' numbers p' hp' hfailed' q⟩
  output h := absurd h hfailed

theorem sameResult_of_writesAlike (t t' : FileTree) (htwins : FileTree.Twins t t' t t')
    (numbers : List Nat) (p p' : Plan) (hp : p.SucceedsByWriting) (hp' : p'.SucceedsByWriting)
    (halike : p.WritesAlike p') :
    SameResult t t' (p.carryOut t numbers) (p'.carryOut t' numbers) := by
  cases halike with
  | done r r' => exact sameResult_of_failed t t' numbers _ _ hp hp' hp hp'
  | write path content finish finish' =>
    have hreplaced := htwins.replaceOn_twins .sound numbers path content
    generalize hx : FileTree.replaceOn .sound t numbers path content = x at hreplaced
    generalize hx' : FileTree.replaceOn .sound t' numbers path content = x' at hreplaced
    obtain ⟨u, u', answer, hafter⟩ := hreplaced
    rw [carryOut_write t u numbers path content finish answer hx,
      carryOut_write t' u' numbers path content finish' answer hx']
    refine ⟨(hp answer).trans (hp' answer).symm, hafter.sameFiles, fun hsuccess => ?_⟩
    obtain rfl := (hp answer).mp hsuccess
    exact ⟨path, content, t.stat_of_replaceOn u .sound numbers path content hx,
      t'.stat_of_replaceOn u' .sound numbers path content hx'⟩

/-- Both files say the same once the flags are applied, so only the check of the first file can make a
difference. -/
theorem sameResult_planFlags (s s' : Setting) (t t' : FileTree) (numbers : List Nat) (f : Flags)
    (bytes bytes' : List UInt8) (c : Config) (htwins : FileTree.Twins t t' t t')
    (hpath : f.config.isEmpty = false) (hfile : t.read f.config = .ok bytes)
    (hfile' : t'.read f.config = .ok bytes') (hc : Config.ofBytes bytes = .ok c)
    (hc' : Config.ofBytes bytes' = .ok (f.override c)) (hgraph : t'.read f.graph = t.read f.graph)
    (hvalid : c.validate = .ok ()) :
    SameResult t t' ((planFlags s t.read f).carryOut t numbers)
      ((planFlags s' t'.read f.withoutOverrides).carryOut t' numbers) := by
  have hp := planFlags_succeedsByWriting s t.read f
  have hp' := planFlags_succeedsByWriting s' t'.read f.withoutOverrides
  have hplan := planFlags_accepted s t.read f bytes c hpath hfile hc hvalid
  cases hoverride : (f.override c).validate with
  | ok _ =>
    -- the same configuration, so the same plan
    have hplan' := planFlags_accepted s' t'.read f.withoutOverrides bytes' (f.override c) hpath hfile'
      hc' hoverride
    rw [f.applyTo_override c] at hplan'
    apply sameResult_of_writesAlike t t' htwins numbers _ _ hp hp'
    rw [hplan, hplan']
    exact planConfig_writesAlike s s' t.read t'.read (f.applyTo c) f.graph hgraph
  | error r =>
    -- what the flags say is refused later in the first run, and at once in the second
    have hplan' := planFlags_rejected s' t'.read f.withoutOverrides bytes' (f.override c) hpath hfile'
      hc' r hoverride
    have hinvalid : ¬ (f.applyTo c).Valid := by
      rw [f.valid_applyTo_iff c (c.validate_yields.holds hvalid)]
      intro h
      cases hoverride.symm.trans (((f.override c).validate_yields ()).mpr ⟨h, rfl⟩)
    obtain ⟨report, hdone⟩ := planConfig_of_invalid s t.read (f.applyTo c) f.graph hinvalid
    rw [hplan, hdone] at hp ⊢
    rw [hplan'] at hp' ⊢
    exact sameResult_of_failed t t' numbers _ _ hp hp' hp hp'

theorem run_eq (s : Setting) (t : FileTree) (numbers : List Nat) (arguments : List String) (f : Flags)
    (hflags : Flags.ofArguments arguments = .ok f) :
    run s t numbers arguments = (planFlags s t.read f).carryOut t numbers := by
  rw [run, plan, hflags]

/-- A run with flags has the result of a run without them on a file that says what the flags say,
exactly if the file may stand as it is or the other run fails. The flags for the output and the class
name alone always have that result. A file that may not stand ends the run, whatever the flags say. -/
theorem flags_override_file_iff (s s' : Setting) (t t' : FileTree) (numbers : List Nat)
    (arguments arguments' : List String) (f : Flags) (place : Place) (bytes bytes' : List UInt8)
    (c : Config) (hflags : Flags.ofArguments arguments = .ok f)
    (hflags' : Flags.ofArguments arguments' = .ok f.withoutOverrides)
    (hplace : t.resolve f.config = .ok place) (hsame : FileTree.SameBut place t t')
    (hfile : t.read f.config = .ok bytes) (hfile' : t'.read f.config = .ok bytes')
    (hc : Config.ofBytes bytes = .ok c) (hc' : Config.ofBytes bytes' = .ok (f.override c))
    (hgraph : t'.read f.graph = t.read f.graph) :
    (SameResult t t' (run s t numbers arguments) (run s' t' numbers arguments') ↔
        c.validate = .ok () ∨ (run s' t' numbers arguments').2.exitCode ≠ 0) ∧
      (f.variant = "" →
        SameResult t t' (run s t numbers arguments) (run s' t' numbers arguments')) ∧
      ∀ r, c.validate = .error r →
        run s t numbers arguments = (t, ⟨1, .json, [], [s!"{f.config}: {r.message}"]⟩) := by
  have hpath : f.config.isEmpty = false := by
    cases hempty : f.config.isEmpty with
    | false => rfl
    | true =>
      rw [String.isEmpty_iff.mp hempty] at hplace
      cases hplace
  have htwins := FileTree.twins_of_read t t' f.config place bytes bytes' hplace hsame hfile hfile'
  have hp := planFlags_succeedsByWriting s t.read f
  have hp' := planFlags_succeedsByWriting s' t'.read f.withoutOverrides
  rw [run_eq s t numbers arguments f hflags,
    run_eq s' t' numbers arguments' f.withoutOverrides hflags']
  cases hvalid : c.validate with
  | ok _ =>
    have hresult := sameResult_planFlags s s' t t' numbers f bytes bytes' c htwins hpath hfile hfile' hc
      hc' hgraph hvalid
    exact ⟨iff_of_true hresult (.inl rfl), fun _ => hresult, nofun⟩
  | error r =>
    have hplan := planFlags_rejected s t.read f bytes c hpath hfile hc r hvalid
    have hfailed : ((planFlags s t.read f).carryOut t numbers).2.exitCode ≠ 0 := by
      rw [hplan]
      exact Nat.one_ne_zero
    have hboth := sameResult_of_failed t t' numbers _ _ hp hp' hfailed
    refine ⟨⟨fun h => .inr fun hsuccess => hfailed (h.success.mpr hsuccess), ?_⟩, ?_, ?_⟩
    · intro h
      rcases h with hok | hfailed'
      · cases hok
      · exact hboth hfailed'
    · intro hvariant
      have hplan' := planFlags_rejected s' t'.read f.withoutOverrides bytes' (f.override c) hpath hfile'
        hc' r ((f.validate_override c hvariant).trans hvalid)
      apply hboth
      rw [hplan']
      exact Nat.one_ne_zero
    · intro r' hr'
      obtain rfl := Except.error.inj hr'
      rw [hplan]
      rfl

def withConfig (config : String) : FileTree where
  items :=
    [(["c.yaml"], .file (Utf8.encode config) 0o644),
     (["g.yaml"], .file (Utf8.encode ("name: Net\noutputs: [b]\nnodes:\n" ++
      "- name: x\n  op: input\n  outputs: [a]\n" ++
      "- name: f\n  op: exp\n  inputs: [a]\n  outputs: [b]\n")) 0o644)]
  working := []

theorem sameBut_withConfig (config config' : String) :
    FileTree.SameBut ["c.yaml"] (withConfig config) (withConfig config') := by
  have hsame : FileTree.SameBut ["c.yaml"] (withConfig config) (withConfig config) :=
    ⟨rfl, fun _ _ => rfl⟩
  exact hsame.put (by simp) (.file (Utf8.encode config') 0o644)

def runWith (config : String) (flags : List String) : FileTree × Report :=
  run ⟨"netscribe", "", false⟩ (withConfig config) [0]
    (["-config", "c.yaml", "-graph", "g.yaml"] ++ flags)

theorem given_flags_replace_file :
    SameResult (withConfig "variant: quant\n") (withConfig "variant: plain\noutput: b.py\n")
        (runWith "variant: quant\n" ["-variant", "plain", "-out=b.py"])
        (runWith "variant: plain\noutput: b.py\n" []) ∧
      (runWith "variant: quant\n" ["-variant", "plain", "-out=b.py"]).2.exitCode = 0 := by
  refine ⟨(flags_override_file_iff _ _ _ _ _ _ _
    { config := "c.yaml", graph := "g.yaml", output := "b.py", variant := "plain" } ["c.yaml"]
    (Utf8.encode "variant: quant\n") (Utf8.encode "variant: plain\noutput: b.py\n")
    { variant := "quant" } ?_ ?_ ?_ (sameBut_withConfig _ _) ?_ ?_ ?_ ?_ ?_).1.mpr (.inl rfl), ?_⟩
  all_goals decide +kernel

theorem flags_cannot_mend_file :
    Config.ofBytes (Utf8.encode "variant: quant\nquant:\n  runtime_import: ''\n") =
        .ok { variant := "quant", quant := { runtimeImport := "" } } ∧
      Config.ofBytes (Utf8.encode "variant: plain\nquant:\n  runtime_import: ''\n") =
        .ok (Flags.override { variant := "plain" }
          { variant := "quant", quant := { runtimeImport := "" } }) ∧
      runWith "variant: quant\nquant:\n  runtime_import: ''\n" ["-variant", "plain"] =
        (withConfig "variant: quant\nquant:\n  runtime_import: ''\n",
          ⟨1, .json, [], ["c.yaml: quant.runtime_import can not be empty"]⟩) ∧
      (runWith "variant: plain\nquant:\n  runtime_import: ''\n" []).2.exitCode = 0 := by
  decide +kernel

end CommandLine

end Netscribe
