import Netscribe.Config
import Netscribe.Proofs.Construction
import Netscribe.Proofs.Correspondence

/-!
# What a configuration for quantization constructs

Three sources give the callee that constructs a submodule: the configured modules, the default
replacements, and the configured fallback. The check of a configuration looks at the fallback, the
default replacements are all there, and nobody looks at the configured modules. So a callee is missing
exactly where a module was configured without one.
-/

namespace Netscribe

namespace Config

/-- Which values a configuration may have. The settings of the runtime count for quantization only. -/
structure Valid (c : Config) : Prop where
  variant : c.variant = "plain" ∨ c.variant = "quant"
  format : c.log.format = "" ∨ c.log.format = "terminal" ∨ c.log.format = "json"
  runtimeImport : c.variant = "quant" → c.quant.runtimeImport ≠ ""
  fallbackModule : c.variant = "quant" → c.quant.fallbackModule ≠ ""

theorem validate_yields (c : Config) : Yields c.validate c.Valid () := by
  unfold validate
  split
  · next h => exact .error _ fun hvalid => hvalid.variant.elim h.1 h.2
  · next hvariant =>
    split
    · next h =>
      exact .error _ fun hvalid => hvalid.format.elim h.1 fun hnamed => hnamed.elim h.2.1 h.2.2
    · next hformat =>
      split
      · next h => exact .error _ fun hvalid => hvalid.runtimeImport h.1 h.2
      · next himport =>
        split
        · next h => exact .error _ fun hvalid => hvalid.fallbackModule h.1 h.2
        · next hfallback =>
          refine (Yields.ok ()).congr (iff_of_true trivial ⟨?_, ?_, ?_, ?_⟩) fun _ => rfl
          · by_contra hnone
            exact hvariant (not_or.mp hnone)
          · by_contra hnone
            obtain ⟨hempty, hnamed⟩ := not_or.mp hnone
            exact hformat ⟨hempty, not_or.mp hnamed⟩
          · exact fun hquant hmissing => himport ⟨hquant, hmissing⟩
          · exact fun hquant hmissing => hfallback ⟨hquant, hmissing⟩

def policyForm (c : Config) : Policy :=
  if c.variant = "quant" then
    { Policy.quant c.quant.modules with
      imports := [c.quant.runtimeImport], fallback := c.quant.fallbackModule }
  else .plain

theorem policy_yields (c : Config) : Yields c.policy c.Valid c.policyForm := by
  have hrest : Yields (ε := Rejection)
      (if c.variant = "quant" then
        return { Policy.quant c.quant.modules with
          imports := [c.quant.runtimeImport], fallback := c.quant.fallbackModule }
      else return .plain) True c.policyForm := by
    unfold policyForm
    split <;> exact .ok _
  exact (c.validate_yields.bind fun _ => hrest).congr (and_iff_left trivial) fun _ => rfl

/-- The constructor of an operator type: the configured module, else the default replacement, else the
fallback as a wrapper. -/
def constructorOf (c : Config) (type : String) : Policy.Constructor :=
  match c.quant.modules.lookup type, Quantization.modules.lookup type with
  | some callee, _ => ⟨callee, false⟩
  | none, some callee => ⟨callee, false⟩
  | none, none => ⟨c.quant.fallbackModule, true⟩

end Config

/-! ### Replacements -/

theorem Policy.lookup_merge (base changes : List (String × String)) (type : String) :
    (merge base changes).lookup type = (changes.lookup type).or (base.lookup type) := by
  unfold merge
  induction base with
  | nil => simp
  | cons entry rest ih =>
    obtain ⟨key, callee⟩ := entry
    by_cases hkey : type = key
    · subst hkey
      cases hchange : changes.lookup type with
      | none => simp [hchange]
      | some other => simpa [hchange] using ih
    · have hother : (type == key) = false := by simpa using hkey
      rw [List.lookup_cons, hother, ← ih, List.filter_cons]
      split
      · rw [List.cons_append, List.lookup_cons, hother]
      · rfl

theorem Quantization.lookup_modules_ne_empty (type : String) :
    modules.lookup type ≠ some "" := by
  have hcallees : ∀ e ∈ modules, e.2 ≠ "" := by decide +kernel
  intro hempty
  obtain ⟨before, after, hsplit, -⟩ := List.lookup_eq_some_iff.mp hempty
  refine hcallees (type, "") ?_ rfl
  rw [hsplit]
  exact List.mem_append_right before List.mem_cons_self

namespace Config

theorem constructor_policyForm (c : Config) (hvalid : c.Valid) (hvariant : c.variant = "quant")
    (type : String) (e : OperatorEntry) : c.policyForm.constructor type e = c.constructorOf type := by
  have hfallback := hvalid.fallbackModule hvariant
  simp only [policyForm, hvariant, if_true, Policy.constructor, Policy.quant, Policy.lookup_merge,
    constructorOf]
  cases c.quant.modules.lookup type with
  | some callee => rfl
  | none =>
    cases Quantization.modules.lookup type with
    | some callee => rfl
    | none => simp [hfallback]

theorem callee_constructorOf_eq_empty (c : Config) (hvalid : c.Valid)
    (hvariant : c.variant = "quant") (type : String) :
    (c.constructorOf type).callee = "" ↔ c.quant.modules.lookup type = some "" := by
  have hdefault := Quantization.lookup_modules_ne_empty type
  have hfallback := hvalid.fallbackModule hvariant
  unfold constructorOf
  cases c.quant.modules.lookup type with
  | some callee => simp
  | none =>
    cases hreplacement : Quantization.modules.lookup type with
    | some callee =>
      rw [hreplacement] at hdefault
      simpa using hdefault
    | none => simpa using hfallback

end Config

/-! ### Constructor statements -/

/-- The text of what a right-hand side calls, empty if it is no call. -/
def Rhs.calleeText : Rhs → String
  | .call c => c.callee.text
  | _ => ""

namespace Generation

/-- The statement constructs the submodule of a node by a callee. -/
structure ConstructedBy (callee : String) (n : Node) (s : Statement Assignment) : Prop where
  index : s.index = n.index
  calls : s.code.rhs.calleeText = callee
  text : ∃ arguments,
    s.code.text = Naming.submodule n.index ++ " = " ++ (callee ++ "(" ++ arguments ++ ")")

theorem emission_constructedBy (o : Options) (earlier : List Node) (n : Node)
    (h : n.hasSubmodule o.table o.policy = true) :
    ∃ s, (emission o earlier n).init = some s ∧
      ConstructedBy (o.policy.constructor n.op.type (n.entry o.table)).callee n s := by
  obtain ⟨positional, keywords, _, _, hinit, -⟩ :=
    Emission.form_init_some o.table o.policy (.ofNodes (earlier ++ [n])) (inputCount earlier) n
      n.outputNames h
  exact ⟨_, hinit, rfl, rfl, (Call.mk (.named _) positional keywords).arguments, rfl⟩

theorem mem_inits_constructedBy (o : Options) (g : Graph) (s : Statement Assignment) :
    s ∈ (moduleOf o g).inits → ∃ n ∈ g.nodes, n.hasSubmodule o.table o.policy = true ∧
      ConstructedBy (o.policy.constructor n.op.type (n.entry o.table)).callee n s := by
  intro hs
  obtain ⟨k, n, hk, hinit⟩ := (mem_inits_iff o g s).mp hs
  cases hsubmodule : n.hasSubmodule o.table o.policy with
  | false =>
    rw [emission_init_none o _ n hsubmodule] at hinit
    cases hinit
  | true =>
    obtain ⟨s', hinit', hconstructed⟩ := emission_constructedBy o (g.nodes.take k) n hsubmodule
    obtain rfl : s' = s := Option.some.inj (hinit'.symm.trans hinit)
    exact ⟨n, List.mem_of_getElem? hk, hsubmodule, hconstructed⟩

theorem exists_init_constructedBy (o : Options) (g : Graph) (n : Node) (hn : n ∈ g.nodes)
    (h : n.hasSubmodule o.table o.policy = true) :
    ∃ s ∈ (moduleOf o g).inits,
      ConstructedBy (o.policy.constructor n.op.type (n.entry o.table)).callee n s := by
  obtain ⟨k, hk⟩ := List.mem_iff_getElem?.mp hn
  obtain ⟨s, hinit, hconstructed⟩ := emission_constructedBy o (g.nodes.take k) n h
  exact ⟨s, (mem_inits_iff o g s).mpr ⟨k, n, hk, hinit⟩, hconstructed⟩

end Generation

namespace Config

/-- A valid configuration for quantization gives a policy with the configured import and with the
constructors in their order of precedence. A callee is missing exactly for the types that are configured
without one, and a constructor statement lacks its callee exactly if a node of such a type has a
submodule. -/
theorem quant_constructors_usable_iff (c : Config) (h : c.validate = .ok ())
    (hvariant : c.variant = "quant") :
    ∃ p, c.policy = .ok p ∧ p.imports = [c.quant.runtimeImport] ∧
      (∀ type e, p.constructor type e = c.constructorOf type) ∧
      (∀ type, (c.constructorOf type).callee = "" ↔ c.quant.modules.lookup type = some "") ∧
      ∀ (o : Options) (g : Graph) (m : Module Assignment), o.policy = p →
        Generation.build o g = .ok m →
        (∀ s ∈ m.inits, ∃ n ∈ g.nodes, n.hasSubmodule o.table p = true ∧
          Generation.ConstructedBy (c.constructorOf n.op.type).callee n s) ∧
        ((∀ s ∈ m.inits, s.code.rhs.calleeText ≠ "") ↔
          ∀ n ∈ g.nodes, n.hasSubmodule o.table p = true →
            c.quant.modules.lookup n.op.type ≠ some "") := by
  have hvalid := c.validate_yields.holds h
  have hconstructor := c.constructor_policyForm hvalid hvariant
  have hempty := c.callee_constructorOf_eq_empty hvalid hvariant
  refine ⟨c.policyForm, (c.policy_yields _).mpr ⟨hvalid, rfl⟩, ?_, hconstructor, hempty, ?_⟩
  · simp [policyForm, hvariant]
  · intro o g m hpolicy hbuild
    obtain rfl := (Generation.build_yields o g).value hbuild
    rw [← hpolicy] at hconstructor ⊢
    have hconstructed : ∀ s ∈ (Generation.moduleOf o g).inits, ∃ n ∈ g.nodes,
        n.hasSubmodule o.table o.policy = true ∧
          Generation.ConstructedBy (c.constructorOf n.op.type).callee n s := by
      intro s hs
      obtain ⟨n, hn, hsubmodule, hby⟩ := Generation.mem_inits_constructedBy o g s hs
      rw [hconstructor] at hby
      exact ⟨n, hn, hsubmodule, hby⟩
    refine ⟨hconstructed, fun hall n hn hsubmodule hmissing => ?_, fun hall s hs hmissing => ?_⟩
    · obtain ⟨s, hs, hby⟩ := Generation.exists_init_constructedBy o g n hn hsubmodule
      rw [hconstructor, (hempty n.op.type).mpr hmissing] at hby
      exact hall s hs hby.calls
    · obtain ⟨n, hn, hsubmodule, hby⟩ := hconstructed s hs
      rw [hby.calls] at hmissing
      exact hall n hn hsubmodule ((hempty n.op.type).mp hmissing)

def ownRuntime (modules : List (String × String)) : Config :=
  { variant := "quant"
    quant := ⟨"import runtime as rt", "rt.Module", modules⟩ }

theorem own_runtime_usable :
    ∃ p m, (ownRuntime [("dense", "rt.Linear")]).policy = .ok p ∧
      Generation.build { policy := p } Sample.linearActivation = .ok m ∧
      m.imports = ["import torch", "import runtime as rt"] ∧
      m.inits.map (·.code.text) =
        ["self.module_1 = rt.Linear(in_features=4, out_features=2)",
         "self.module_2 = py_nndct.nn.Sigmoid()"] ∧
      ∀ s ∈ m.inits, s.code.rhs.calleeText ≠ "" := by
  obtain ⟨p, hp, -, -, -, hstatements⟩ :=
    quant_constructors_usable_iff (ownRuntime [("dense", "rt.Linear")]) rfl rfl
  obtain rfl := Except.ok.inj (hp.symm.trans rfl)
  refine ⟨_, _, rfl, rfl, rfl, rfl, ?_⟩
  refine ((hstatements { policy := _ } Sample.linearActivation _ rfl rfl).2).mpr ?_
  decide

theorem configured_callee_missing :
    (ownRuntime [("dense", "")]).validate = .ok () ∧
      ∃ p m s, (ownRuntime [("dense", "")]).policy = .ok p ∧
        (∀ e, (p.constructor "dense" e).callee = "") ∧
        Generation.build { policy := p } Sample.linearActivation = .ok m ∧ s ∈ m.inits ∧
        s.code.text = "self.module_1 = (in_features=4, out_features=2)" :=
  ⟨rfl, _, _, _, rfl, fun _ => rfl, rfl, List.mem_cons_self, rfl⟩

end Config

end Netscribe
