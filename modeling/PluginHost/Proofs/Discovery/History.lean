import Mathlib.Data.List.Basic
import PluginHost.Loader.Stock
import PluginHost.Proofs.Discovery.Load

/-!
# The history of a discovery

A discovery that succeeds is a list of loads (`Discovery.History`), one for each plugin that
offers an extension and in the order of the plugins.  What a loader may refer to is what the
loads before it declared, each name with the first extension that was declared under it, and
what is found in the end is that of all loads.

`Discovery.history_of_run` reads the history off a run.  It is carried through the run by
`Discovery.visit_history`, the case of one plugin.
-/

namespace PluginHost

namespace Discovery

/-- What a list of plugins, the loads of their extensions and the findings have to do with each
other if discovery visited the plugins in order. -/
structure History (d : Discovery) (plugins : List Plugin) (loads : List Load) (f : Findings) :
    Prop where
  /-- The plugins with something to load are loaded once each, in their order. -/
  loaded : loads.map (·.plugin) = plugins.filter d.offers
  performed : ∀ l ∈ loads, l.Performed d
  /-- A loader may refer to what was declared before. -/
  context : ∀ before l after, loads = before ++ l :: after →
    l.found.Collects (before.map (·.extension))
  extensions : f.extensions.Collects (loads.map (·.extension))
  size : f.extensions.size = (loads.filter (·.kept)).length
  undiscovered : f.undiscovered = (plugins.filter fun p => !d.offers p).map (·.name)

variable {d : Discovery} {plugins : List Plugin} {loads : List Load} {f f' : Findings}

theorem history_nil : d.History [] [] {} where
  loaded := rfl
  performed := by simp
  context := by simp
  extensions := ExtensionSet.collects_empty
  size := rfl
  undiscovered := rfl

theorem History.skip (h : d.History plugins loads f) {p : Plugin} (hp : d.offers p = false) :
    d.History (plugins ++ [p]) loads { f with undiscovered := f.undiscovered ++ [p.name] } where
  loaded := by simp [h.loaded, hp]
  performed := h.performed
  context := h.context
  extensions := h.extensions
  size := h.size
  undiscovered := by simp [h.undiscovered, hp]

/-- A plugin with an extension adds a load, for which everything found so far is in view. -/
theorem History.load (h : d.History plugins loads f) {l : Load} (hp : d.offers l.plugin = true)
    (hl : l.Performed d) (hs : l.found = f.extensions) :
    d.History (plugins ++ [l.plugin]) (loads ++ [l])
      { f with extensions := f.extensions.insert l.extension } where
  loaded := by simp [h.loaded, hp]
  performed := by
    intro m hm
    rcases List.mem_append.1 hm with hm | hm
    · exact h.performed m hm
    · exact List.mem_singleton.1 hm ▸ hl
  context := by
    intro before m after he
    -- either `m` is the new load, or what comes after it ends with the new one
    rcases List.eq_nil_or_concat after with rfl | ⟨after, last, rfl⟩
    · obtain ⟨rfl, hm⟩ := List.append_inj' he rfl
      obtain rfl : l = m := by simpa using hm
      exact hs ▸ h.extensions
    · rw [List.concat_eq_append, ← List.cons_append, ← List.append_assoc] at he
      exact h.context before m after (List.append_inj' he rfl).1
  extensions := by
    rw [List.map_append]
    exact h.extensions.insert l.extension
  size := by
    have hk : l.kept = !f.extensions.contains l.extension.name := by rw [Load.kept, hs]
    rw [ExtensionSet.size_insert, List.filter_append, List.length_append, h.size]
    cases hc : f.extensions.contains l.extension.name <;> simp [hk, hc]
  undiscovered := by simp [h.undiscovered, hp]

/-- **One more plugin** makes the history longer by one load, or by none. -/
theorem visit_history (h : d.History plugins loads f) {p : Plugin}
    (hv : (d.visit f p).outcome = .ok f') :
    ∃ more, d.History (plugins ++ [p]) (loads ++ more) f' ∧
      (d.visit f p).calls = more.map (·.call) := by
  rcases visit_cases hv with ⟨hp, rfl, hc⟩ | ⟨l, rfl, hs, hl, rfl, hc⟩
  · exact ⟨[], by simpa using h.skip hp, hc⟩
  · exact ⟨[l], h.load (offers_of_serves hl.served) hl hs, hc⟩

theorem visitEach_history (rest : List Plugin) (h : d.History plugins loads f)
    (hv : (d.visitEach f rest).outcome = .ok f') :
    ∃ more, d.History (plugins ++ rest) (loads ++ more) f' ∧
      (d.visitEach f rest).calls = more.map (·.call) := by
  induction rest generalizing plugins loads f with
  | nil =>
    obtain rfl : f = f' := by simpa [visitEach] using hv
    exact ⟨[], by simpa using h, rfl⟩
  | cons p rest ih =>
    unfold visitEach at hv ⊢
    obtain ⟨g, hg, hv⟩ := Traced.outcome_bind_eq_ok_iff.1 hv
    obtain ⟨first, hf, hcf⟩ := visit_history h hg
    obtain ⟨others, ho, hco⟩ := ih hf hv
    refine ⟨first ++ others, by simpa using ho, ?_⟩
    rw [Traced.calls_bind_of_ok _ hg, hcf, hco, List.map_append]

theorem outcome_run (d : Discovery) (plugins : List Plugin) :
    (d.run plugins).outcome = (d.visitEach {} plugins).outcome := by
  unfold run
  cases h : (d.visitEach {} plugins).outcome with
  | ok f => rw [Traced.outcome_bind_of_ok _ h, Traced.outcome_bind_of_ok _ rfl, Traced.outcome_pure]
  | error failure => exact Traced.outcome_bind_of_error _ h

theorem calls_run (d : Discovery) (plugins : List Plugin) :
    (d.run plugins).calls = (d.visitEach {} plugins).calls := by
  unfold run
  cases h : (d.visitEach {} plugins).outcome with
  | ok f =>
    rw [Traced.calls_bind_of_ok _ h, Traced.calls_bind_of_ok _ rfl]
    exact List.append_nil _
  | error failure => rw [Traced.bind_of_error _ h]

/-- A run that succeeds has a history, and its calls are those of the history. -/
theorem history_of_run (h : (d.run plugins).outcome = .ok f) :
    ∃ loads, d.History plugins loads f ∧ (d.run plugins).calls = loads.map (·.call) := by
  rw [outcome_run] at h
  obtain ⟨loads, hl, hc⟩ := visitEach_history plugins history_nil h
  exact ⟨loads, by simpa using hl, (calls_run d plugins).trans hc⟩

namespace History

theorem kept_iff (h : d.History plugins loads f) {before after : List Load} {l : Load}
    (he : loads = before ++ l :: after) :
    l.kept = true ↔ ∀ b ∈ before, b.extension.name ≠ l.extension.name := by
  have hc : l.kept = true ↔ l.found.find? l.extension.name = none := by
    unfold Load.kept
    rw [Bool.not_eq_true', Bool.eq_false_iff, Ne, ExtensionSet.contains_iff, not_exists]
    exact (Option.eq_none_iff_forall_ne_some).symm
  rw [hc, h.context before l after he, List.find?_eq_none]
  simp

/-- Every plugin offers nothing, or has its extension kept, or has it dropped. -/
theorem size_add (h : d.History plugins loads f) :
    f.extensions.size + (loads.filter fun l => !l.kept).length + f.undiscovered.length =
      plugins.length := by
  have hl : loads.length = (plugins.filter d.offers).length := by
    rw [← h.loaded, List.length_map]
  have hk := List.length_eq_length_filter_add (l := loads) (·.kept)
  have hp := List.length_eq_length_filter_add (l := plugins) d.offers
  rw [h.size, h.undiscovered, List.length_map]
  omega

end History

/-- **What a discovery that succeeds has done.**  It called a loader once for each plugin that
offers an extension, in the order of the plugins; the context of each call held exactly the
first extension of every name that was declared before, and each extension was kept unless an
earlier one had its name.  What it found are the first extensions of all names that were
declared, and the names of the plugins that offer nothing. -/
theorem exists_loads_of_run (h : (d.run plugins).outcome = .ok f) :
    ∃ loads : List Load,
      (loads.map (·.plugin) = plugins.filter d.offers ∧ (∀ l ∈ loads, l.Performed d) ∧
        (d.run plugins).calls = loads.map (·.call) ∧
        ∀ before l after, loads = before ++ l :: after →
          (∀ name, l.request.context.find? name =
            (before.map (·.extension)).find? (·.name = name)) ∧
          (l.kept = true ↔ ∀ b ∈ before, b.extension.name ≠ l.extension.name)) ∧
      (∀ name, f.extensions.find? name = (loads.map (·.extension)).find? (·.name = name)) ∧
      f.undiscovered = (plugins.filter fun p => !d.offers p).map (·.name) ∧
      f.extensions.size + (loads.filter fun l => !l.kept).length + f.undiscovered.length =
        plugins.length := by
  obtain ⟨loads, hl, hc⟩ := history_of_run h
  refine ⟨loads, ⟨hl.loaded, hl.performed, hc, fun before l after he => ⟨?_, hl.kept_iff he⟩⟩,
    hl.extensions, hl.undiscovered, hl.size_add⟩
  exact hl.context before l after he

/-! ### Two plugins with one name -/

/-- A plugin that asks for a loader, or has no extension. -/
def plainPlugin (name : String) (loaderId : Option String) (named : name ≠ "" := by decide) :
    Plugin where
  descriptor := { name, describer := loaderId.map fun id => { id } }
  files := { artifactId := name, root := ⟨"plugins"⟩, files := .empty }
  named

/-- A discovery with loaders. -/
def plainDiscovery (loaders : List Loader) : Discovery where
  repository := { loaders := KeyMap.ofList (loaders.map fun loader => (loader.id, loader)) }
  adapter := ⟨.native⟩
  manifestPath := "manifest.json"

/-- A discovery with two loaders that declare extensions of one name. -/
def rivalry : Discovery :=
  plainDiscovery
    [.fixed "new" { name := "Http", version := "2.0.0" },
      .fixed "old" { name := "Http", version := "1.0.0" }]

/-- A plugin for each of the loaders, the older version first, and one without an extension. -/
def rivals : List Plugin :=
  [plainPlugin "first" (some "old"), plainPlugin "second" (some "new"), plainPlugin "third" none]

/-- What is found in them: the version of the first plugin. -/
def rivalFindings : Findings where
  extensions := .ofList [{ name := "Http", version := "1.0.0" }]
  undiscovered := ["third"]

/-- Of two loads one is dropped. -/
theorem exists_loads_of_rivalry :
    (rivalry.run rivals).outcome = .ok rivalFindings ∧
      ∃ loads : List Load, (rivalry.run rivals).calls = loads.map (·.call) ∧
        loads.length = 2 ∧ (loads.filter fun l => !l.kept).length = 1 := by
  have h : (rivalry.run rivals).outcome = .ok rivalFindings := rfl
  obtain ⟨loads, ⟨hl, -, hc, -⟩, -, -, hs⟩ := exists_loads_of_run h
  have hn : (loads.map (·.plugin)).length = 2 := hl ▸ rfl
  have hf : rivalFindings.extensions.size + (loads.filter fun l => !l.kept).length + 1 = 3 := hs
  have hz : rivalFindings.extensions.size = 1 := rfl
  exact ⟨h, loads, hc, by simpa using hn, by omega⟩

end Discovery

end PluginHost
