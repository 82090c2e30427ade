import PluginHost.Plugin
import PluginHost.Traced

/-!
# How a plugin's extension is found

A plugin with a describer is served by the loader that the describer names, one with a manifest
by the built-in loader, and any other has no extension.
-/

namespace PluginHost

/-- Where the description of a plugin's extension is. -/
inductive Decision where
  | describer (describer : Describer)
  | manifest (location : Path)
  | nothing

namespace Decision

/-- The name of a decision. -/
def label : Decision → String
  | describer _ => "structured-descriptor"
  | manifest _ => "legacy-manifest"
  | nothing => "no-extension"

/-- The decision on a plugin whose manifest would be at a path. -/
def ofPlugin (manifestPath : String) (p : Plugin) : Decision :=
  match p.descriptor.describer with
  | some d => describer d
  | none =>
    match p.files.findResource ⟨manifestPath⟩ with
    | some location => manifest location
    | none => nothing

/-- What is logged about a decision. -/
def announce (p : Plugin) : Decision → Traced Unit
  | describer _ => return
  | manifest _ => Traced.emit .debug s!"[ExtensionDiscovery] Discovered extension {p.name}"
  | nothing =>
    Traced.emit .warning
      s!"[ExtensionDiscovery] Extension [{p.name}] could not be discovered"

/-- Decides on a plugin and says so. -/
def select (manifestPath : String) (p : Plugin) : Traced Decision := do
  let decision := ofPlugin manifestPath p
  decision.announce p
  return decision

end Decision

end PluginHost
