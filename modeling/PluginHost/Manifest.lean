import PluginHost.Extension.Codec
import PluginHost.Failure
import PluginHost.FileSystem.Resolve
import PluginHost.Json.Reader
import PluginHost.KeyMap

/-!
# Manifests

A manifest is the older way in which a plugin describes its extension: a JSON object with the
name and version of the extension and the properties for its loader.  `Manifest.parse` takes
exactly the objects of that form; `Manifest.toJson` writes one.
-/

namespace PluginHost

/-- The older description of an extension. -/
structure Manifest where
  name : String
  version : String
  minRuntimeVersion : String := ""
  /-- The id of the loader that the manifest was written for. -/
  loaderId : String := ""
  properties : KeyMap String := ∅
  exportedPackages : List String := []
  exportedResources : List String := []
  deriving DecidableEq

namespace Manifest

/-- A document that is no manifest. -/
def unusable (source message : String) : Failure :=
  .configuration (.unusableDocument source message)

/-- The JSON form of a manifest. -/
def toJson (m : Manifest) : Json :=
  .object [("describer", .object [("id", .string m.loaderId),
      ("properties", .object (m.properties.entries.map fun e => (e.1, .string e.2)))]),
    ("exportedPackages", Json.ofStrings m.exportedPackages),
    ("exportedResources", Json.ofStrings m.exportedResources),
    ("minRuntimeVersion", .string m.minRuntimeVersion),
    ("name", .string m.name),
    ("version", .string m.version)]

/-- The properties in the description of the loader. -/
def propertiesOf (describer : Json) : Except Json.Fault (KeyMap String) :=
  match describer.member? "properties" with
  | some value => KeyMap.ofList <$> value.getTexts
  | none => .ok ∅

/-- The manifest of a JSON form. -/
def ofJson (j : Json) : Except Json.Fault Manifest := do
  let name ← (← j.member "name").getString
  let version ← (← j.member "version").getString
  let minRuntimeVersion ← j.memberD "minRuntimeVersion" Json.getString ""
  let describer ← j.member "describer"
  let loaderId ← describer.memberD "id" Json.getString ""
  let properties ← propertiesOf describer
  let exportedPackages ← j.memberList "exportedPackages" Json.getString
  let exportedResources ← j.memberList "exportedResources" Json.getString
  return { name, version, minRuntimeVersion, loaderId, properties, exportedPackages,
           exportedResources }

/-- The manifest of a document that was read; `source` is where it came from. -/
def ofDocument (source : String) (j : Json) : Except Failure Manifest :=
  match j with
  | .object _ =>
    match ofJson j with
    | .ok m => .ok m
    | .error fault =>
      .error (unusable source s!"Invalid extension manifest {source}: {fault.message}")
  | _ => .error (unusable source s!"Extension manifest {source} must be a JSON object")

/-- The manifest that bytes form.  A number that is too large is a fault of the document, not
of the manifest. -/
def parse (content : ByteArray) (source : String) : Except Failure Manifest :=
  match Json.read content with
  | .ok j => ofDocument source j
  | .error .malformed =>
    .error (unusable source
      s!"Malformed extension manifest {source}: {Json.Fault.malformed.message}")
  | .error fault => .error (.json fault)

/-- The manifest in a file. -/
def read (files : FileSystem) (path : Path) : Except Failure Manifest :=
  match files.read? path with
  | some content => parse content path.text
  | none => .error (unusable path.text s!"Cannot open extension manifest {path.text}")

end Manifest

end PluginHost
