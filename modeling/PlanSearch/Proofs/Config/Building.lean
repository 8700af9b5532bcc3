/-
What is resolved can be built.

Resolving and building look at a tree from two sides. Resolving merges
templates into it and then checks the merged tree; building checks it
again, and refuses every reference that is left. Neither check is ever
the one that stops a resolved tree: it names no template any more and has
passed the same check before. What is left to fail is about the context,
which may lack a variable or a factory that the tree asks for
(`SelectorContext.Lacks`).

A phase that was resolved is resolved again to itself, because a tree
without references resolves to itself and the check of it has not
changed.
-/
import PlanSearch.Proofs.Act
import PlanSearch.Problem.Tasks
import PlanSearch.Proofs.Config.Template
import PlanSearch.Selector.Build

namespace PlanSearch

-- ============================================================= what is lacking

/-- The error names something that the context does not have, or a factory
that the configuration does not name. -/
inductive SelectorContext.Lacks {S V : Type} (c : SelectorContext S V) :
    ConfigError → Prop
  | basic {path : String} {entityClass variableName : Option String}
      (h : ∀ b ∈ c.basics,
        (isAsked entityClass b.1 && isAsked variableName b.2.name) = false) :
      Lacks c (.invalid (path ++ ": no basic variable matches entity class " ++
        shown entityClass ++ " and variable " ++ shown variableName))
  | named {path name : String} (entityClass : Option String)
      (h : ∀ b ∈ c.basics, isAsked entityClass b.1 = true → b.2.name ≠ name) :
      Lacks c (.invalid (path ++ ": unknown variable '" ++ name ++ "'"))
  | chained {path : String} {variableName : Option String}
      (h : ∀ x ∈ c.chained, isAsked variableName x.name = false) :
      Lacks c (.invalid (path ++ ": no chained variable matches " ++
        shown variableName))
  | unnamed {path : String} :
    Lacks c (.invalid (path ++ ": factory name is required"))
  | list {path name : String}
      (h : Registry.find? name c.registry.lists = none) :
      Lacks c (.unknownFactory path name)
  | source {path name : String}
      (h : Registry.find? name c.registry.sources = none) :
      Lacks c (.unknownFactory path name)
  | weights {path name : String}
      (h : Registry.find? name c.registry.weights = none) :
      Lacks c (.unknownFactory path name)

namespace SelectorContext

variable {S V : Type} {c : SelectorContext S V} {path : String}
  {e : ConfigError}

/-- Where no basic variable is found, none matches. -/
theorem lacks_of_basicsFor {entityClass variableName : Option String}
    (h : c.basicsFor path entityClass variableName = .error e) : c.Lacks e := by
  simp only [basicsFor] at h
  split at h
  · rename_i hnone
    cases h
    refine .basic fun b hb => ?_
    have hfilter := List.filter_eq_nil_iff.1 (List.isEmpty_iff.1 hnone) b hb
    exact Bool.eq_false_iff.2 hfilter
  · cases h

/-- Where none is found by its name, one of the names is lacking. -/
theorem lacks_of_namedBasicsFor {entityClass : Option String}
    {names : List String}
    (h : c.namedBasicsFor path entityClass names = .error e) : c.Lacks e := by
  obtain hall | ⟨all, hall, h⟩ := error_of_bind h
  · exact lacks_of_basicsFor hall
  · split at h
    · cases h
    · dsimp only at h
      split at h
      · rename_i missing hmissing
        cases h
        refine .named entityClass fun b hb hclass hname => ?_
        -- a variable of the missing name would have been found
        have hfound : b.2 ∈ all := by
          simp only [basicsFor] at hall
          split at hall
          · cases hall
          · cases hall
            exact List.mem_map_of_mem
              (List.mem_filter.2 ⟨hb, Bool.and_eq_true_iff.2 ⟨hclass, rfl⟩⟩)
        have hunmatched := List.find?_some hmissing
        have hasked := List.mem_of_find?_eq_some hmissing
        simp only [Bool.not_eq_true', List.any_eq_false, List.mem_filter,
          beq_iff_eq] at hunmatched
        exact hunmatched b.2 ⟨hfound, by simpa [hname] using hasked⟩ hname
      · cases h

/-- Where no chained variable is found, none matches. -/
theorem lacks_of_chainedFor {variableName : Option String}
    (h : c.chainedFor path variableName = .error e) : c.Lacks e := by
  simp only [chainedFor] at h
  split at h
  · rename_i hnone
    cases h
    refine .chained fun x hx => ?_
    have hfilter := List.filter_eq_nil_iff.1 (List.isEmpty_iff.1 hnone) x hx
    exact Bool.eq_false_iff.2 hfilter
  · cases h

/-- A factory is not named, or not registered. -/
theorem lacks_of_factoryFor {α : Type} {name : Option String}
    {entries : List (String × α)}
    (hlacks : ∀ n, Registry.find? n entries = none →
      c.Lacks (.unknownFactory path n))
    (h : factoryFor path name entries = .error e) : c.Lacks e := by
  unfold factoryFor at h
  split at h
  · cases h
    exact .unnamed
  · rename_i n
    split at h
    · cases h
    · rename_i hnone
      cases h
      exact hlacks n hnone

end SelectorContext

-- ==================================================================== building

namespace SelectorConfig

variable {S V : Type} {c : SelectorContext S V} {path : String}
  {e : ConfigError}

/-- A leaf is refused for what it does not find. -/
theorem lacks_of_leavesFor {settings : LeafConfig}
    (h : leavesFor c path settings = .error e) : c.Lacks e := by
  cases settings with
  | change | pillarChange =>
    obtain h | ⟨_, -, h⟩ := error_of_bind h
    · exact SelectorContext.lacks_of_basicsFor h
    · cases h
  | swap | pillarSwap =>
    obtain h | ⟨_, -, h⟩ := error_of_bind h
    · exact SelectorContext.lacks_of_namedBasicsFor h
    · cases h
  | segmentChange | segmentSwap | tailSwap =>
    obtain h | ⟨_, -, h⟩ := error_of_bind h
    · exact SelectorContext.lacks_of_chainedFor h
    · cases h
  | moveList =>
    obtain h | ⟨_, -, h⟩ := error_of_bind h
    · exact SelectorContext.lacks_of_factoryFor (fun _ => .list) h
    · cases h
  | moveSource =>
    obtain h | ⟨_, -, h⟩ := error_of_bind h
    · exact SelectorContext.lacks_of_factoryFor (fun _ => .source) h
    · cases h

/-- Weights are refused for want of a factory. -/
theorem lacks_of_weightsFor {children : List SelectorConfig}
    {factory : Option String}
    (h : weightsFor c path children factory = .error e) : c.Lacks e := by
  simp only [weightsFor] at h
  split at h
  · cases h
  · split at h
    · cases h
    · rename_i hnone
      cases h
      exact .weights hnone

/-- Children are built one after the other, so an error of them is an error
of one of them. -/
theorem buildAll_eq_error {order : Order} {seed : UInt64} {index : Nat}
    {cs : List SelectorConfig}
    (h : buildAll c path order seed index cs = .error e) :
    ∃ d ∈ cs, ∃ path seed, buildAt c path order seed d = .error e := by
  induction cs generalizing index with
  | nil => cases h
  | cons d rest ih =>
    obtain h | ⟨first, -, h⟩ := error_of_bind h
    · exact ⟨d, List.mem_cons_self, _, _, h⟩
    · obtain h | ⟨others, -, h⟩ := error_of_bind h
      · obtain ⟨d', hd', hbuild⟩ := ih h
        exact ⟨d', List.mem_cons_of_mem d hd', hbuild⟩
      · cases h

/-- A tree without references is built in every context that lacks nothing. -/
theorem Free.lacks_of_buildAt {config : SelectorConfig} (hfree : config.Free)
    {order : Order} {seed : UInt64}
    (h : buildAt c path order seed config = .error e) : c.Lacks e := by
  induction config using children_induction generalizing path order seed with
  | h config ih =>
    obtain ⟨hroot, hchildren⟩ := free_iff.1 hfree
    have hrefuse : refuseReference path config.common = .ok () := by
      rw [refuseReference, hroot]
    have hbelow {order : Order}
        (hall : buildAll c path order seed 0 config.children = .error e) :
        c.Lacks e := by
      obtain ⟨d, hd, path', seed', hbuild⟩ := buildAll_eq_error hall
      exact ih d hd (hchildren d hd) hbuild
    cases config with
    | leaf common settings =>
      obtain h | ⟨_, -, h⟩ := error_of_bind h
      · cases hrefuse.symm.trans h
      · obtain h | ⟨_, -, h⟩ := error_of_bind h
        · exact lacks_of_leavesFor h
        · cases h
    | union common children factory =>
      obtain h | ⟨_, -, h⟩ := error_of_bind h
      · cases hrefuse.symm.trans h
      · obtain h | ⟨_, -, h⟩ := error_of_bind h
        · exact hbelow h
        · obtain h | ⟨_, -, h⟩ := error_of_bind h
          · exact lacks_of_weightsFor h
          · cases h
    | product common children ignoreEmpty =>
      obtain h | ⟨_, -, h⟩ := error_of_bind h
      · cases hrefuse.symm.trans h
      · obtain h | ⟨_, -, h⟩ := error_of_bind h
        · exact hbelow h
        · cases h

/-- A tree without references that passes the check is built in every
context that lacks nothing. -/
theorem Free.lacks_of_build {config : SelectorConfig} (hfree : config.Free)
    (hvalid : config.validate = .ok ()) {outside : UInt64}
    (h : config.build c outside = .error e) : c.Lacks e := by
  obtain h | ⟨_, -, h⟩ := error_of_bind h
  · cases hvalid.symm.trans h
  · exact hfree.lacks_of_buildAt h

end SelectorConfig

-- =================================================================== resolving

namespace SolverConfig

variable {templates : Templates}

/-- What a resolved phase searches with names no template and has passed the
check. -/
theorem resolvePhase_selector {phase resolved : PhaseConfig}
    {selector : SelectorConfig}
    (h : resolvePhase templates phase = .ok resolved)
    (hs : resolved.selector = some selector) :
    selector.Free ∧ selector.validate = .ok () := by
  unfold resolvePhase at h
  split at h
  · obtain ⟨r, hr, h⟩ := exists_of_bind_ok h
    obtain ⟨_, hvalid, h⟩ := exists_of_bind_ok h
    cases h
    cases hs
    exact ⟨SelectorConfig.free_resolveAt
      (fun _ _ _ hp => SelectorConfig.free_lookup hp) hr, hvalid⟩
  · rename_i hnone
    cases h
    cases phase with
    | construction => cases hs
    | localSearch found limits =>
      cases hs
      exact (hnone selector limits rfl).elim

/-- Such a phase resolves to itself. -/
theorem resolvePhase_self {phase : PhaseConfig}
    (h : ∀ selector, phase.selector = some selector →
      selector.Free ∧ selector.validate = .ok ()) :
    resolvePhase templates phase = .ok phase := by
  unfold resolvePhase
  split
  · rename_i selector limits
    obtain ⟨hfree, hvalid⟩ := h selector rfl
    have hself : selector.resolve templates = .ok selector :=
      hfree.resolveAt_self
    simp only [hself, hvalid, bind, Except.bind]
    rfl
  · rfl

/-- Phases that all resolve are those of the result. -/
theorem resolvePhases_ok {phases resolved : List PhaseConfig}
    (h : resolvePhases templates phases = (resolved, none)) :
    ∀ r ∈ resolved, ∃ phase ∈ phases, resolvePhase templates phase = .ok r := by
  induction phases generalizing resolved with
  | nil =>
    cases h
    exact fun r hr => nomatch hr
  | cons phase rest ih =>
    unfold resolvePhases at h
    split at h
    · cases h
    · rename_i first hfirst
      obtain ⟨rfl, hnone⟩ := Prod.mk.inj h
      have hrest := ih (Prod.ext rfl hnone)
      refine List.forall_mem_cons.2 ⟨⟨phase, List.mem_cons_self, hfirst⟩,
        fun r hr => ?_⟩
      obtain ⟨phase', hphase', hr'⟩ := hrest r hr
      exact ⟨phase', List.mem_cons_of_mem phase hphase', hr'⟩

/-- Phases that resolve to themselves stay as they are. -/
theorem resolvePhases_self {phases : List PhaseConfig}
    (h : ∀ phase ∈ phases, resolvePhase templates phase = .ok phase) :
    resolvePhases templates phases = (phases, none) := by
  induction phases with
  | nil => rfl
  | cons phase rest ih =>
    obtain ⟨hphase, hrest⟩ := List.forall_mem_cons.1 h
    simp only [resolvePhases, hphase, ih hrest]

/-- After resolving, the selector of every local search passes the check,
and building it, in whatever context, fails only over what the context
lacks. Resolving again succeeds and changes nothing. -/
theorem resolved_builds {config resolved : SolverConfig}
    (h : config.resolveSelectors = (resolved, none)) :
    (∀ phase ∈ resolved.phases, ∀ selector, phase.selector = some selector →
        selector.validate = .ok ()
          ∧ ∀ (S V : Type) (c : SelectorContext S V) (outside : UInt64)
                  (e : ConfigError),
              selector.build c outside = .error e → c.Lacks e)
      ∧ resolved.resolveSelectors = (resolved, none) := by
  obtain ⟨rfl, hnone⟩ := Prod.mk.inj h
  have hphases : ∀ phase ∈ (resolvePhases config.templates config.phases).1,
      ∀ selector, phase.selector = some selector →
        selector.Free ∧ selector.validate = .ok () := by
    intro phase hphase selector hselector
    obtain ⟨before, -, hbefore⟩ :=
      resolvePhases_ok (Prod.ext rfl hnone) phase hphase
    exact resolvePhase_selector hbefore hselector
  constructor
  · intro phase hphase selector hselector
    obtain ⟨hfree, hvalid⟩ := hphases phase hphase selector hselector
    exact ⟨hvalid, fun S V c outside e he => hfree.lacks_of_build hvalid he⟩
  · have hself : resolvePhases config.templates
        (resolvePhases config.templates config.phases).1
        = ((resolvePhases config.templates config.phases).1, none) :=
      resolvePhases_self fun phase hphase =>
        resolvePhase_self (hphases phase hphase)
    simp only [resolveSelectors, hself]

/-- A union that has its children from a template only, which makes it pass
the check, and with them a weight factory that the context lacks. -/
theorem resolved_builds_merged :
    let child := SelectorConfig.ofVariable "priority"
    let merged := SelectorConfig.union .unset [child] (some "weigh")
    let heir := SelectorConfig.union
      { CommonSettings.unset with inheritFrom := some "base" } [] none
    let config := { plain with
      phases := [.localSearch (some heir) none], templates :=
        [("base", merged)] }
    let resolved := { config with phases := [.localSearch (some merged) none] }
    let context : SelectorContext Tasks Int :=
      ⟨[("Task", Tasks.priority)], [], Registry.empty, some 0⟩
    config.resolveSelectors = (resolved, none) ∧ merged.validate = .ok ()
      ∧ (∃ e, merged.build context 0 = .error e ∧ context.Lacks e)
      ∧ resolved.resolveSelectors = (resolved, none) := by
  intro child merged heir config resolved context
  have hresolved : config.resolveSelectors = (resolved, none) := rfl
  obtain ⟨hphases, hagain⟩ := resolved_builds hresolved
  obtain ⟨hvalid, hbuild⟩ := hphases _ List.mem_cons_self merged rfl
  have herror : merged.build context 0
    = .error (.unknownFactory "union" "weigh") := rfl
  exact ⟨hresolved, hvalid, ⟨_, herror, hbuild _ _ context 0 _ herror⟩, hagain⟩

end SolverConfig

end PlanSearch
