import PluginHost.Proofs.Discovery.Prefix

/-!
# How a discovery fails

A discovery fails at the first plugin that cannot be loaded with what was found in the plugins
before it, and nothing behind that plugin is touched (`Discovery.run_fails_iff`).  The failure is
always a configuration error that names a plugin: a plugin asks for a loader that nobody
registered, or its load fails and the failure is put down to it (`Failure.ofPlugin`).

Messages are compared as they are held.  Reported is the part before the first NUL character
(`Failure.what`).
-/

namespace PluginHost

/-! ### Failures put down to a plugin -/

namespace ConfigurationError

@[simp]
theorem kind_attributeTo (plugin : String) (e : ConfigurationError) :
    (e.attributeTo plugin).kind = e.kind := by
  unfold attributeTo
  split <;> rfl

@[simp]
theorem loaderId_attributeTo (plugin : String) (e : ConfigurationError) :
    (e.attributeTo plugin).loaderId = e.loaderId := by
  unfold attributeTo
  split <;> rfl

theorem attributeTo_of_named {e : ConfigurationError} (h : e.pluginName ≠ "") (plugin : String) :
    e.attributeTo plugin = e :=
  if_pos (.inl h)

theorem attributeTo_of_unnamed {e : ConfigurationError} {plugin : String} (h : e.pluginName = "")
    (hp : plugin ≠ "") :
    e.attributeTo plugin =
      { e with message := e.message ++ s!" (plugin '{plugin}')", pluginName := plugin } := by
  have hm : s!"{e.message} (plugin '{plugin}')" = e.message ++ s!" (plugin '{plugin}')" := by
    simp only [String.append_assoc]
    rfl
  rw [← hm]
  exact if_neg (not_or.2 ⟨not_not.2 h, hp⟩)

theorem pluginName_attributeTo_ne_empty (e : ConfigurationError) {plugin : String}
    (hp : plugin ≠ "") : (e.attributeTo plugin).pluginName ≠ "" := by
  by_cases h : e.pluginName = ""
  · rwa [attributeTo_of_unnamed h hp]
  · rwa [attributeTo_of_named h]

theorem message_loaderFailed (plugin reason : String) :
    (loaderFailed plugin reason).message =
      s!"Failed to load the extension of plugin '{plugin}': " ++ reason :=
  rfl

end ConfigurationError

namespace Failure

theorem ofPlugin_of_ne_configuration {cause : Failure} (h : ∀ c, cause ≠ .configuration c)
    (plugin : String) : cause.ofPlugin plugin = .loaderFailed plugin cause.what := by
  cases cause with
  | configuration c => exact absurd rfl (h c)
  | _ => rfl

theorem pluginName_ofPlugin_ne_empty (cause : Failure) {plugin : String} (hp : plugin ≠ "") :
    (cause.ofPlugin plugin).pluginName ≠ "" := by
  by_cases h : ∃ c, cause = .configuration c
  · obtain ⟨c, rfl⟩ := h
    exact c.pluginName_attributeTo_ne_empty hp
  · rw [ofPlugin_of_ne_configuration (fun c hc => h ⟨c, hc⟩)]
    exact hp

end Failure

namespace Discovery

variable {d : Discovery} {plugins : List Plugin} {p : Plugin} {f : Findings}

/-! ### The plugin at which a discovery fails -/

/-- The errors with which a plugin cannot be loaded with what was found. -/
inductive Fails (d : Discovery) (p : Plugin) (found : ExtensionSet) : ConfigurationError → Prop
  | unregistered {describer : Describer}
      (described : p.descriptor.describer = some describer)
      (unregistered : d.repository.find? describer.id = none) :
      Fails d p found (.unknownLoader describer.id p.name)
  | load {load : Traced Extension} {cause : Failure}
      (attempted : d.attempt? p found = some load)
      (failed : load.outcome = .error cause) :
      Fails d p found (cause.ofPlugin p.name)

/-- **A visit fails** exactly if the plugin cannot be loaded with what was found. -/
theorem visit_eq_error_iff {failure : Failure} :
    (d.visit f p).outcome = .error failure ↔
      ∃ e, d.Fails p f.extensions e ∧ failure = .configuration e := by
  constructor
  · intro h
    cases ha : d.attempt? p f.extensions with
    | none =>
      rcases attempt?_eq_none ha with hp | ⟨describer, hd, hr⟩
      · exact nomatch (visit_of_not_offers hp).1.symm.trans h
      · exact ⟨_, .unregistered hd hr,
          Except.error.inj (h.symm.trans (visit_of_unregistered hd hr))⟩
    | some load =>
      cases hl : load.outcome with
      | ok e => exact nomatch (visit_of_attempt_ok ha hl).symm.trans h
      | error cause =>
        exact ⟨_, .load ha hl, Except.error.inj (h.symm.trans (visit_of_attempt_error ha hl))⟩
  · rintro ⟨e, hf, rfl⟩
    cases hf with
    | unregistered hd hr => exact visit_of_unregistered hd hr
    | load ha hl => exact visit_of_attempt_error ha hl

/-- A list of plugins fails at the first plugin whose visit fails. -/
theorem visitEach_eq_error_iff {failure : Failure} :
    (d.visitEach f plugins).outcome = .error failure ↔
      ∃ before p after g, plugins = before ++ p :: after ∧
        (d.visitEach f before).outcome = .ok g ∧ (d.visit g p).outcome = .error failure := by
  constructor
  · intro h
    induction plugins generalizing f with
    | nil => cases h
    | cons p rest ih =>
      rcases Traced.outcome_bind_eq_error_iff.1 h with hp | ⟨g, hg, hrest⟩
      · exact ⟨[], p, rest, f, rfl, rfl, hp⟩
      · obtain ⟨before, q, after, g', rfl, hb, hq⟩ := ih hrest
        exact ⟨p :: before, q, after, g', rfl, (Traced.outcome_bind_of_ok _ hg).trans hb, hq⟩
  · rintro ⟨before, p, after, g, rfl, hb, hp⟩
    rw [visitEach_append, Traced.outcome_bind_of_ok _ hb]
    exact Traced.outcome_bind_of_error _ hp

theorem run_eq_error_iff {failure : Failure} :
    (d.run plugins).outcome = .error failure ↔
      ∃ before p after f e, plugins = before ++ p :: after ∧ (d.run before).outcome = .ok f ∧
        d.Fails p f.extensions e ∧ failure = .configuration e := by
  simp only [outcome_run, visitEach_eq_error_iff, visit_eq_error_iff, exists_and_left]

/-- What is behind the plugin at which a discovery fails is not touched. -/
theorem calls_run_of_fails {before after : List Plugin} {e : ConfigurationError}
    (hb : (d.run before).outcome = .ok f) (he : d.Fails p f.extensions e) :
    (d.run (before ++ p :: after)).calls = (d.run (before ++ [p])).calls := by
  have hfail : (d.run (before ++ [p])).outcome = .error (.configuration e) :=
    run_eq_error_iff.2 ⟨before, p, [], f, e, rfl, hb, he, rfl⟩
  rw [List.append_cons]
  exact (run_append_of_error hfail after).2

namespace Fails

variable {found : ExtensionSet} {e : ConfigurationError}

theorem pluginName_ne_empty (h : d.Fails p found e) : e.pluginName ≠ "" := by
  cases h with
  | unregistered => exact p.name_ne_empty
  | load => exact Failure.pluginName_ofPlugin_ne_empty _ p.name_ne_empty

/-- A plugin that asks for an unknown loader fails for no other reason. -/
theorem eq_unknownLoader (h : d.Fails p found e) {describer : Describer}
    (hd : p.descriptor.describer = some describer)
    (hr : d.repository.find? describer.id = none) : e = .unknownLoader describer.id p.name := by
  cases h with
  | unregistered hd' => rw [Option.some.inj (hd.symm.trans hd')]
  | load ha => simp [attempt?, Decision.ofPlugin, hd, hr] at ha

theorem eq_ofPlugin (h : d.Fails p found e) {load : Traced Extension} {cause : Failure}
    (ha : d.attempt? p found = some load) (hl : load.outcome = .error cause) :
    e = cause.ofPlugin p.name := by
  cases h with
  | unregistered hd hr => simp [attempt?, Decision.ofPlugin, hd, hr] at ha
  | load ha' hl' =>
    obtain rfl := Option.some.inj (ha.symm.trans ha')
    rw [Except.error.inj (hl.symm.trans hl')]

end Fails

/-- **A discovery fails at the first plugin that cannot be loaded**, with a configuration error
that names a plugin.  No plugin behind is loaded.  A loader that nobody registered is named
together with the plugin that asks for it.  A configuration error of the load keeps its kind,
with all that belongs to the kind, and its loader; it stays as it is if it names a plugin, and is
extended by the name of the plugin if not.  Any other failure becomes a loading error of the
plugin, and its wording ends the message. -/
theorem run_fails_iff (d : Discovery) (plugins : List Plugin) :
    (∀ failure, (d.run plugins).outcome = .error failure ↔
      ∃ before p after f e, plugins = before ++ p :: after ∧ (d.run before).outcome = .ok f ∧
        d.Fails p f.extensions e ∧ failure = .configuration e) ∧
    ∀ before p after f e, plugins = before ++ p :: after → (d.run before).outcome = .ok f →
      d.Fails p f.extensions e →
      e.pluginName ≠ "" ∧ (d.run plugins).calls = (d.run (before ++ [p])).calls ∧
      (∀ describer, p.descriptor.describer = some describer →
        d.repository.find? describer.id = none →
        e.loaderId = describer.id ∧ e.pluginName = p.name) ∧
      (∀ load c, d.attempt? p f.extensions = some load →
        load.outcome = .error (.configuration c) →
        e.kind = c.kind ∧ e.loaderId = c.loaderId ∧
        (c.pluginName = "" → e.pluginName = p.name ∧
          e.message = c.message ++ s!" (plugin '{p.name}')") ∧
        (c.pluginName ≠ "" → e = c)) ∧
      ∀ load cause, d.attempt? p f.extensions = some load → load.outcome = .error cause →
        (∀ c, cause ≠ .configuration c) →
        e.kind = .loading ∧ e.pluginName = p.name ∧ ∃ start, e.message = start ++ cause.what := by
  refine ⟨fun failure => run_eq_error_iff, fun before p after f e hs hb he => ?_⟩
  subst hs
  refine ⟨he.pluginName_ne_empty, calls_run_of_fails hb he, fun describer hd hr => ?_,
    fun load c ha hl => ?_, fun load cause ha hl hc => ?_⟩
  · rw [he.eq_unknownLoader hd hr]
    exact ⟨rfl, rfl⟩
  · have hec : e = c.attributeTo p.name := he.eq_ofPlugin ha hl
    subst hec
    refine ⟨c.kind_attributeTo p.name, c.loaderId_attributeTo p.name, fun hu => ?_, fun hu => ?_⟩
    · rw [ConfigurationError.attributeTo_of_unnamed hu p.name_ne_empty]
      exact ⟨rfl, rfl⟩
    · exact ConfigurationError.attributeTo_of_named hu p.name
  · have hec : e = .loaderFailed p.name cause.what :=
      (he.eq_ofPlugin ha hl).trans (Failure.ofPlugin_of_ne_configuration hc p.name)
    subst hec
    exact ⟨rfl, rfl, _, ConfigurationError.message_loaderFailed p.name cause.what⟩

/-- A discovery with a loader that needs no attributes and one that does. -/
def demanding : Discovery :=
  plainDiscovery [.fixed "fixed" { name := "Http", version := "1.0" }, .fromAttributes "demanding"]

/-- Plugins that give no attributes. -/
def silent : List Plugin :=
  [plainPlugin "ready" (some "fixed"), plainPlugin "bare" (some "demanding"),
    plainPlugin "spare" (some "fixed")]

/-- The second plugin fails for want of an attribute, and the third is not loaded. -/
theorem run_fails_of_silent :
    ∃ e, (demanding.run silent).outcome = .error (.configuration e) ∧
      e.kind = .parameter "name" ∧ e.pluginName = "bare" ∧
      e.message = "Required loader attribute 'name' is missing (plugin 'bare')" ∧
      (demanding.run silent).calls.length = 2 := by
  obtain ⟨hiff, hdetails⟩ := run_fails_iff demanding silent
  have hb : (demanding.run [plainPlugin "ready" (some "fixed")]).outcome =
      .ok { extensions := .ofList [{ name := "Http", version := "1.0" }] } := rfl
  have he : demanding.Fails (plainPlugin "bare" (some "demanding"))
      (.ofList [{ name := "Http", version := "1.0" }])
      ((Failure.configuration (.missingAttribute "name")).ofPlugin "bare") :=
    .load rfl rfl
  obtain ⟨-, hcalls, -, hload, -⟩ := hdetails _ _ _ _ _ rfl hb he
  obtain ⟨hkind, -, hnamed, -⟩ := hload _ _ rfl rfl
  exact ⟨_, (hiff _).2 ⟨_, _, _, _, _, rfl, hb, he, rfl⟩, hkind, (hnamed rfl).1,
    (hnamed rfl).2, congrArg List.length hcalls⟩

end Discovery

end PluginHost
