import PluginHost.Discovery.Run
import PluginHost.Proofs.Extension.Set
import PluginHost.Proofs.Extension.Validation

/-!
# What discovery does with one plugin

A plugin either has no extension, and then its name is noted, or it is loaded: the loader that
serves it is called once, with the extensions found so far, and what it declares is added
(`Discovery.visit_cases`).  Which loader serves a plugin, and with which attributes, depends on
the plugin alone (`Discovery.Serves`).
-/

namespace PluginHost

namespace Loader

theorem outcome_load_eq_ok_iff {loader : Loader} {request : Request} {e : Extension} :
    (loader.load request).outcome = .ok e ↔
      (loader.declare request).outcome = .ok e ∧ e.problems request.context = [] := by
  unfold load
  simp only [Traced.outcome_bind_eq_ok_iff, Traced.outcome_record, Traced.outcome_withoutCalls,
    Traced.outcome_ofExcept, Traced.outcome_pure]
  constructor
  · rintro ⟨_, -, d, hd, _, hv, he⟩
    obtain rfl : d = e := by simpa using he
    exact ⟨hd, Extension.validate_eq_ok_iff.1 hv⟩
  · rintro ⟨hd, hp⟩
    exact ⟨(), trivial, e, hd, (), Extension.validate_eq_ok_iff.2 hp, rfl⟩

/-- However it ends, a load is one call of the loader. -/
theorem calls_load (loader : Loader) (request : Request) :
    (loader.load request).calls = [loader.callOf request] := by
  unfold load
  rw [Traced.calls_bind_of_ok _ rfl, Traced.calls_record]
  cases hd : (loader.declare request).withoutCalls.outcome with
  | error failure => rw [Traced.bind_of_error _ hd]; simp
  | ok e =>
    rw [Traced.calls_bind_of_ok _ hd]
    cases hv : (Traced.ofExcept (e.validate request.context)).outcome with
    | error failure => rw [Traced.bind_of_error _ hv]; simp
    | ok => rw [Traced.calls_bind_of_ok _ hv]; simp

end Loader

theorem Decision.findResource_of_ofPlugin {path : String} {p : Plugin} {location : Path}
    (h : ofPlugin path p = manifest location) : p.files.findResource ⟨path⟩ = some location := by
  unfold ofPlugin at h
  split at h
  · cases h
  · split at h
    · next hl => rw [hl, Decision.manifest.inj h]
    · cases h

namespace Discovery

/-- Whether a plugin has an extension: it has a describer, or there is a manifest. -/
def offers (d : Discovery) (p : Plugin) : Bool :=
  p.descriptor.describer.isSome || (p.files.findResource ⟨d.manifestPath⟩).isSome

/-- The loader that serves a plugin, and the attributes that it is given: those of the plugin's
describer or, for want of one, of its manifest. -/
inductive Serves (d : Discovery) (p : Plugin) : Loader → Attributes → Prop
  | describer {describer : Describer} {loader : Loader}
      (described : p.descriptor.describer = some describer)
      (registered : d.repository.find? describer.id = some loader) :
      Serves d p loader describer.attributes
  | manifest {location : Path} {manifest : Manifest} {attributes : Attributes}
      (undescribed : p.descriptor.describer = none)
      (located : p.files.findResource ⟨d.manifestPath⟩ = some location)
      (read : d.readManifest p.files.files location = .ok manifest)
      (adapted : ManifestAdapter.attributes manifest = .ok attributes) :
      Serves d p d.adapter.builtin attributes

end Discovery

/-- A load of the extension of a plugin. -/
structure Load where
  plugin : Plugin
  loader : Loader
  attributes : Attributes
  /-- The extensions that the loader may refer to. -/
  found : ExtensionSet
  /-- What the loader declares. -/
  extension : Extension

namespace Load

/-- What the loader is given. -/
def request (l : Load) : Request where
  files := l.plugin.files
  context := .ofSet l.found
  attributes := l.attributes

/-- The call of the loader. -/
def call (l : Load) : LoaderCall := l.loader.callOf l.request

/-- Whether the extension is kept: its name is not taken. -/
def kept (l : Load) : Bool := !l.found.contains l.extension.name

/-- Whether a load is what a discovery does for its plugin: the loader that serves the plugin
declares the extension, and the extension keeps all rules in the context of those found. -/
structure Performed (d : Discovery) (l : Load) : Prop where
  served : d.Serves l.plugin l.loader l.attributes
  declared : (l.loader.declare l.request).outcome = .ok l.extension
  valid : l.extension.problems l.request.context = []

end Load

namespace Discovery

variable {d : Discovery} {p : Plugin} {f f' : Findings}

/-! ### The attempt to load -/

theorem offers_of_serves {loader : Loader} {attributes : Attributes}
    (h : d.Serves p loader attributes) : d.offers p = true := by
  cases h with
  | describer hd _ => simp [offers, hd]
  | manifest _ hl _ _ => simp [offers, hl]

/-- The load of a plugin's extension with what was found so far, before a failure of it is put
down to the plugin.  There is none if the plugin has no extension, or asks for a loader that
nobody registered. -/
def attempt? (d : Discovery) (p : Plugin) (found : ExtensionSet) : Option (Traced Extension) :=
  match Decision.ofPlugin d.manifestPath p with
  | .describer describer =>
    (d.repository.find? describer.id).map fun loader =>
      loader.load { files := p.files, context := .ofSet found, attributes := describer.attributes }
  | .manifest location =>
    some do
      let manifest ← Traced.ofExcept (d.readManifest p.files.files location)
      d.adapter.load p.files (.ofSet found) manifest
  | .nothing => none

/-- The loader that serves a plugin is called with what was found and with the attributes. -/
theorem attempt?_of_serves {loader : Loader} {attributes : Attributes}
    (h : d.Serves p loader attributes) (found : ExtensionSet) :
    d.attempt? p found =
      some (loader.load { files := p.files, context := .ofSet found, attributes }) := by
  unfold attempt? Decision.ofPlugin
  cases h with
  | describer hd hl => simp only [hd, hl, Option.map_some]
  | manifest hd hf hm ha =>
    simp only [hd, hf, hm, ha, ManifestAdapter.load, Traced.ofExcept_ok, pure_bind]

/-- Without an attempt a plugin has no extension, or asks for an unknown loader. -/
theorem attempt?_eq_none {found : ExtensionSet} (h : d.attempt? p found = none) :
    d.offers p = false ∨ ∃ describer, p.descriptor.describer = some describer ∧
      d.repository.find? describer.id = none := by
  unfold attempt? Decision.ofPlugin at h
  cases hd : p.descriptor.describer with
  | some describer =>
    simp only [hd, Option.map_eq_none_iff] at h
    exact .inr ⟨describer, rfl, h⟩
  | none =>
    cases hf : p.files.findResource ⟨d.manifestPath⟩ with
    | some location => simp [hd, hf] at h
    | none => exact .inl (by simp [offers, hd, hf])

theorem exists_serves_of_attempt {found : ExtensionSet} {load : Traced Extension} {e : Extension}
    (h : d.attempt? p found = some load) (he : load.outcome = .ok e) :
    ∃ loader attributes, d.Serves p loader attributes := by
  unfold attempt? Decision.ofPlugin at h
  cases hd : p.descriptor.describer with
  | some describer =>
    simp only [hd, Option.map_eq_some_iff] at h
    obtain ⟨loader, hl, -⟩ := h
    exact ⟨loader, describer.attributes, .describer hd hl⟩
  | none =>
    cases hf : p.files.findResource ⟨d.manifestPath⟩ with
    | none => simp [hd, hf] at h
    | some location =>
      simp only [hd, hf, Option.some.injEq] at h
      subst h
      obtain ⟨manifest, hm, he⟩ := Traced.outcome_bind_eq_ok_iff.1 he
      obtain ⟨attributes, ha, -⟩ := Traced.outcome_bind_eq_ok_iff.1 he
      exact ⟨d.adapter.builtin, attributes, .manifest hd hf hm ha⟩

theorem exists_load_of_attempt {found : ExtensionSet} {load : Traced Extension} {e : Extension}
    (h : d.attempt? p found = some load) (he : load.outcome = .ok e) :
    ∃ l : Load, l.plugin = p ∧ l.found = found ∧ l.extension = e ∧ l.Performed d ∧
      load.calls = [l.call] := by
  obtain ⟨loader, attributes, hs⟩ := exists_serves_of_attempt h he
  obtain rfl := Option.some.inj ((attempt?_of_serves hs found).symm.trans h)
  obtain ⟨hd, hv⟩ := Loader.outcome_load_eq_ok_iff.1 he
  exact ⟨⟨p, loader, attributes, found, e⟩, rfl, rfl, rfl, ⟨hs, hd, hv⟩, Loader.calls_load _ _⟩

/-! ### One plugin -/

theorem outcome_keep (p : Plugin) (e : Extension) (f : Findings) :
    (keep p e f).outcome = .ok { f with extensions := f.extensions.insert e } := by
  unfold keep
  split <;> rfl

theorem calls_keep (p : Plugin) (e : Extension) (f : Findings) : (keep p e f).calls = [] := by
  unfold keep
  split <;> rfl

theorem outcome_select (path : String) (p : Plugin) :
    (Decision.select path p).outcome = .ok (Decision.ofPlugin path p) := by
  unfold Decision.select
  cases Decision.ofPlugin path p <;> rfl

theorem calls_select (path : String) (p : Plugin) : (Decision.select path p).calls = [] := by
  unfold Decision.select
  cases Decision.ofPlugin path p <;> rfl

theorem visit_of_attempt {load : Traced Extension} (h : d.attempt? p f.extensions = some load) :
    (d.visit f p).outcome = (onBehalfOf p load >>= fun e => keep p e f).outcome ∧
      (d.visit f p).calls = (onBehalfOf p load >>= fun e => keep p e f).calls := by
  unfold visit
  rw [Traced.outcome_bind_of_ok _ (outcome_select _ _),
    Traced.calls_bind_of_ok _ (outcome_select _ _), calls_select, List.nil_append]
  unfold attempt? at h
  cases hp : Decision.ofPlugin d.manifestPath p with
  | describer describer =>
    simp only [hp, Option.map_eq_some_iff] at h
    obtain ⟨loader, hl, rfl⟩ := h
    simp only [loadDescribed, hl, and_self]
  | manifest location =>
    simp only [hp, Option.some.injEq] at h
    subst h
    exact ⟨rfl, rfl⟩
  | nothing => simp [hp] at h

theorem calls_visit_of_attempt {load : Traced Extension}
    (h : d.attempt? p f.extensions = some load) : (d.visit f p).calls = load.calls := by
  rw [(visit_of_attempt h).2]
  cases hl : (onBehalfOf p load).outcome with
  | ok e =>
    rw [Traced.calls_bind_of_ok _ hl, calls_keep, List.append_nil]
    rfl
  | error failure =>
    rw [Traced.bind_of_error _ hl]
    rfl

theorem visit_of_attempt_ok {load : Traced Extension} {e : Extension}
    (h : d.attempt? p f.extensions = some load) (he : load.outcome = .ok e) :
    (d.visit f p).outcome = .ok { f with extensions := f.extensions.insert e } := by
  have hp : (onBehalfOf p load).outcome = .ok e := Traced.outcome_mapFailure_eq_ok_iff.2 he
  rw [(visit_of_attempt h).1, Traced.outcome_bind_of_ok _ hp, outcome_keep]

/-- A failure is put down to the plugin. -/
theorem visit_of_attempt_error {load : Traced Extension} {cause : Failure}
    (h : d.attempt? p f.extensions = some load) (hc : load.outcome = .error cause) :
    (d.visit f p).outcome = .error (.configuration (cause.ofPlugin p.name)) :=
  (visit_of_attempt h).1.trans
    (Traced.outcome_bind_of_error _ (Traced.outcome_mapFailure_of_error hc))

theorem visit_of_not_offers (h : d.offers p = false) :
    (d.visit f p).outcome = .ok { f with undiscovered := f.undiscovered ++ [p.name] } ∧
      (d.visit f p).calls = [] := by
  obtain ⟨hd, hf⟩ : p.descriptor.describer = none ∧
      p.files.findResource ⟨d.manifestPath⟩ = none := by
    simpa [offers] using h
  unfold visit
  rw [Traced.outcome_bind_of_ok _ (outcome_select _ _),
    Traced.calls_bind_of_ok _ (outcome_select _ _), calls_select]
  simp only [Decision.ofPlugin, hd, hf]
  exact ⟨rfl, rfl⟩

theorem visit_of_unregistered {describer : Describer}
    (hd : p.descriptor.describer = some describer)
    (hr : d.repository.find? describer.id = none) :
    (d.visit f p).outcome = .error (.configuration (.unknownLoader describer.id p.name)) := by
  unfold visit
  rw [Traced.outcome_bind_of_ok _ (outcome_select _ _)]
  simp only [Decision.ofPlugin, hd, loadDescribed, hr]
  exact Traced.outcome_bind_of_error _ rfl

/-- **What a discovery does with a plugin.**  It notes the name of one that offers nothing.  Any
other is loaded, by one call, with the extensions found so far, and its extension is added. -/
theorem visit_cases (h : (d.visit f p).outcome = .ok f') :
    (d.offers p = false ∧ f' = { f with undiscovered := f.undiscovered ++ [p.name] } ∧
      (d.visit f p).calls = []) ∨
    ∃ l : Load, l.plugin = p ∧ l.found = f.extensions ∧ l.Performed d ∧
      f' = { f with extensions := f.extensions.insert l.extension } ∧
      (d.visit f p).calls = [l.call] := by
  cases ha : d.attempt? p f.extensions with
  | none =>
    rcases attempt?_eq_none ha with hp | ⟨describer, hd, hr⟩
    · obtain ⟨ho, hc⟩ := visit_of_not_offers (f := f) hp
      exact .inl ⟨hp, Except.ok.inj (h.symm.trans ho), hc⟩
    · exact nomatch h.symm.trans (visit_of_unregistered hd hr)
  | some load =>
    cases hl : load.outcome with
    | error cause => exact nomatch h.symm.trans (visit_of_attempt_error ha hl)
    | ok e =>
      obtain ⟨l, hp, hs, rfl, hperformed, hc⟩ := exists_load_of_attempt ha hl
      exact .inr ⟨l, hp, hs, hperformed, Except.ok.inj (h.symm.trans (visit_of_attempt_ok ha hl)),
        (calls_visit_of_attempt ha).trans hc⟩

end Discovery

end PluginHost
