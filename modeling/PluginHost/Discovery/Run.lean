import PluginHost.Discovery.Adapter
import PluginHost.Discovery.Decision
import PluginHost.Repository

/-!
# Discovery

The extensions of a list of plugins.  The plugins are taken strictly in order; each is loaded
with the extensions found before it, and may refer to no others.  The first failure ends the
run, and it is an error of the plugin at which it arose.  A plugin without an extension is
passed over, and an extension whose name is taken is dropped.
-/

namespace PluginHost

/-- What a discovery works with. -/
structure Discovery where
  repository : Repository
  adapter : ManifestAdapter
  /-- Where plugins keep their manifests. -/
  manifestPath : String
  /-- How manifests are read. -/
  readManifest : FileSystem → Path → Except Failure Manifest := Manifest.read

/-- What a discovery found. -/
structure Findings where
  extensions : ExtensionSet := ∅
  /-- The names of the plugins without an extension. -/
  undiscovered : List String := []

namespace Discovery

/-- A discovery with a repository, a built-in loader, which has to be given, and the choices of
a host. -/
def make (repository : Repository) (builtin : Option Loader) (config : Config) :
    Except Failure Discovery := do
  return { repository, adapter := ← ManifestAdapter.make builtin,
           manifestPath := config.manifestPath }

/-- Runs a load of a plugin, with any failure as an error of the plugin. -/
def onBehalfOf (p : Plugin) (load : Traced Extension) : Traced Extension :=
  load.mapFailure fun failure => .configuration (failure.ofPlugin p.name)

/-- Loads the extension of a plugin through its describer. -/
def loadDescribed (d : Discovery) (p : Plugin) (describer : Describer) (found : ExtensionSet) :
    Traced Extension :=
  match d.repository.find? describer.id with
  | none => Traced.fail (.configuration (.unknownLoader describer.id p.name))
  | some loader =>
    onBehalfOf p (loader.load
      { files := p.files, context := .ofSet found, attributes := describer.attributes })

/-- Loads the extension of a plugin through its manifest. -/
def loadManifest (d : Discovery) (p : Plugin) (location : Path) (found : ExtensionSet) :
    Traced Extension :=
  onBehalfOf p do
    let manifest ← Traced.ofExcept (d.readManifest p.files.files location)
    d.adapter.load p.files (.ofSet found) manifest

/-- Adds the extension of a plugin to what was found. -/
def keep (p : Plugin) (e : Extension) (f : Findings) : Traced Findings := do
  if f.extensions.contains e.name then
    Traced.emit .warning
      s!"[ExtensionDiscovery] Plugin {p.name} declares extension {e.name}, which an earlier plugin already declared; keeping the first one"
  return { f with extensions := f.extensions.insert e }

/-- Discovers the extension of one plugin. -/
def visit (d : Discovery) (f : Findings) (p : Plugin) : Traced Findings := do
  match ← Decision.select d.manifestPath p with
  | .describer describer => keep p (← d.loadDescribed p describer f.extensions) f
  | .manifest location => keep p (← d.loadManifest p location f.extensions) f
  | .nothing => return { f with undiscovered := f.undiscovered ++ [p.name] }

/-- Discovers the extensions of plugins, one after the other, from what was found so far. -/
def visitEach (d : Discovery) (f : Findings) : List Plugin → Traced Findings
  | [] => return f
  | p :: rest => do visitEach d (← d.visit f p) rest

/-- Discovers the extensions of plugins. -/
def run (d : Discovery) (plugins : List Plugin) : Traced Findings := do
  let f ← d.visitEach {} plugins
  Traced.emit .info
    s!"[ExtensionDiscovery] Discovered {f.extensions.size} extension(s) in {plugins.length} plugin(s)"
  return f

end Discovery

end PluginHost
