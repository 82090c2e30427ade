import PluginHost.Loader.Native
import PluginHost.Proofs.Discovery.Redescription
import PluginHost.Proofs.FileSystem.Alike

/-!
# Discovery in directories in another order

Loaders see the files of a plugin through paths: they find resources and read what is at a path.
A loader that goes by these alone (`Loader.GoesByPaths`), as the built-in one does
(`Loader.native_goesByPaths`), makes the same of a plugin whatever order the directories are
listed in, and so does a discovery with such loaders (`Discovery.outcome_run_eq_of_alike`).
-/

namespace PluginHost

/-! ### Loaders -/

/-- Whether two requests are the same but for the order in which directories are listed: they
lead every path to the same, and the same resources are found. -/
structure Request.SameByPaths (q q' : Request) : Prop where
  artifactId : q.files.artifactId = q'.files.artifactId
  root : q.files.root = q'.files.root
  findResource : q.files.findResource = q'.files.findResource
  status : q.files.files.status = q'.files.files.status
  context : q.context = q'.context
  attributes : q.attributes = q'.attributes

namespace Loader

/-- Whether a loader looks at the files of a plugin through paths alone. -/
def GoesByPaths (loader : Loader) : Prop :=
  ∀ q q' : Request, q.SameByPaths q' → loader.declare q = loader.declare q'

variable {loader : Loader} {q q' : Request}

theorem requireText_eq (h : q.SameByPaths q') : q.requireText = q'.requireText := by
  funext key
  unfold Request.requireText Request.attribute?
  rw [h.attributes]

theorem native_goesByPaths : native.GoesByPaths := by
  intro q q' h
  have hread : Native.readDeclaration q.files.files = Native.readDeclaration q'.files.files := by
    funext location
    unfold Native.readDeclaration FileSystem.read?
    rw [h.status]
  show Native.declare q = Native.declare q'
  unfold Native.declare
  rw [requireText_eq h, h.findResource, h.artifactId, hread]

theorem GoesByPaths.keeping (hl : loader.GoesByPaths) (library : Path) :
    (loader.keeping library).GoesByPaths := hl

theorem GoesByPaths.load_eq (hl : loader.GoesByPaths) (h : q.SameByPaths q') :
    loader.load q = loader.load q' := by
  unfold load callOf
  rw [hl q q' h, h.context, h.attributes, h.artifactId]

end Loader

/-! ### Plugins -/

/-- Whether two plugins are the same but for the order in which directories are listed. -/
structure Plugin.Alike (p q : Plugin) : Prop where
  descriptor : p.descriptor = q.descriptor
  files : p.files.Alike q.files

namespace Plugin.Alike

variable {p q : Plugin}

theorem name_eq (h : p.Alike q) : p.name = q.name := congrArg Descriptor.name h.descriptor

theorem sameByPaths (h : p.Alike q) (context : ResolutionContext) (attributes : Attributes) :
    Request.SameByPaths ⟨p.files, context, attributes⟩ ⟨q.files, context, attributes⟩ where
  artifactId := h.files.artifactId
  root := h.files.root
  findResource := h.files.findResource_eq
  status := funext h.files.files.status_eq
  context := rfl
  attributes := rfl

theorem ofPlugin_eq (h : p.Alike q) (path : String) :
    Decision.ofPlugin path p = Decision.ofPlugin path q := by
  unfold Decision.ofPlugin
  rw [h.descriptor, h.files.findResource_eq]

end Plugin.Alike

/-! ### Discoveries -/

namespace Discovery

variable {d : Discovery} {p q : Plugin} {ps qs : List Plugin}

/-- Whether a discovery goes by what paths lead to: so do its loaders, and it reads manifests as
they are read by default. -/
structure GoesByPaths (d : Discovery) : Prop where
  loaders : ∀ id loader, d.repository.find? id = some loader → loader.GoesByPaths
  builtin : d.adapter.builtin.GoesByPaths
  readManifest : d.readManifest = Manifest.read

theorem loadDescribed_eq (hd : d.GoesByPaths) (h : p.Alike q) (describer : Describer)
    (found : ExtensionSet) :
    d.loadDescribed p describer found = d.loadDescribed q describer found := by
  unfold loadDescribed onBehalfOf
  rw [h.name_eq]
  cases hl : d.repository.find? describer.id with
  | none => rfl
  | some loader =>
    dsimp only
    rw [(hd.loaders _ loader hl).load_eq (h.sameByPaths (.ofSet found) describer.attributes)]

theorem loadManifest_eq (hd : d.GoesByPaths) (h : p.Alike q) (location : Path)
    (found : ExtensionSet) : d.loadManifest p location found = d.loadManifest q location found := by
  have hread : d.readManifest p.files.files location = d.readManifest q.files.files location := by
    rw [hd.readManifest]
    unfold Manifest.read
    rw [h.files.files.read?_eq]
  have hload : d.adapter.load p.files (.ofSet found) = d.adapter.load q.files (.ofSet found) := by
    funext manifest
    unfold ManifestAdapter.load
    refine congrArg _ (funext fun attributes => ?_)
    exact hd.builtin.load_eq (h.sameByPaths (.ofSet found) attributes)
  unfold loadManifest onBehalfOf
  rw [h.name_eq, hread, hload]

theorem visit_eq (hd : d.GoesByPaths) (h : p.Alike q) (f : Findings) :
    d.visit f p = d.visit f q := by
  have hselect : Decision.select d.manifestPath p = Decision.select d.manifestPath q := by
    unfold Decision.select Decision.announce
    rw [h.ofPlugin_eq, h.name_eq]
  unfold visit keep
  simp only [hselect, loadDescribed_eq hd h, loadManifest_eq hd h, h.name_eq]

/-- **A discovery ends in the same way** whatever order the directories are listed in. -/
theorem outcome_run_eq_of_alike (hd : d.GoesByPaths) (h : List.Forall₂ Plugin.Alike ps qs) :
    (d.run ps).outcome = (d.run qs).outcome := by
  refine (run_of_agree (h.imp fun p q hpq f => ?_)).1
  rw [visit_eq hd hpq]
  exact ⟨rfl, rfl⟩

end Discovery

end PluginHost
