import PluginHost.Loader.Native
import PluginHost.Manifest

/-!
# Serving manifests

A manifest is served by the built-in loader: its property `type` and its version become the
attributes of a request.  Nothing else in the manifest counts.
-/

namespace PluginHost

/-- The built-in loader that serves manifests. -/
structure ManifestAdapter where
  builtin : Loader

namespace ManifestAdapter

/-- The adapter of a built-in loader, which has to be given. -/
def make : Option Loader → Except Failure ManifestAdapter
  | some builtin => .ok { builtin }
  | none => .error (.invalidArgument "The manifest adapter needs a built-in loader")

/-- The attributes that a type and a version make. -/
def attributesOf (type version : String) : Attributes :=
  KeyMap.ofList [(Loader.Native.typeKey, .ofText type), (Loader.Native.versionKey, .ofText version)]

/-- The attributes that a manifest gives. -/
def attributes (m : Manifest) : Except Failure Attributes :=
  match m.properties.find? Loader.Native.typeKey with
  | none => noType
  | some type =>
    if type = "" then noType
    else if m.version = "" then
      .error (Manifest.unusable m.name s!"Extension manifest of '{m.name}' has no version")
    else .ok (attributesOf type m.version)
where
  noType :=
    .error (Manifest.unusable m.name
      s!"Extension manifest of '{m.name}' has no 'type' describer property")

/-- Loads the extension of a plugin with a manifest. -/
def load (a : ManifestAdapter) (files : LoadingContext) (context : ResolutionContext)
    (m : Manifest) : Traced Extension := do
  a.builtin.load { files, context, attributes := ← Traced.ofExcept (attributes m) }

end ManifestAdapter

end PluginHost
