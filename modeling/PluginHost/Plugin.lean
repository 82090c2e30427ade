import PluginHost.Config
import PluginHost.LoadingContext
import PluginHost.Manifest
import PluginHost.Attribute

/-!
# Plugins

A plugin is a directory with files and, optionally, a descriptor that names the plugin and the
loader that describes its extension.  A plugin without a descriptor is named after its
directory.
-/

namespace PluginHost

/-- What a plugin says about itself. -/
structure Descriptor where
  name : String
  minRuntimeVersion : String := ""
  /-- The loader that describes the plugin's extension. -/
  describer : Option Describer := none

namespace Descriptor

/-- The describer of a JSON form. -/
def describerOfJson (j : Json) : Except Json.Fault Describer := do
  let id ← (← j.member "id").getString
  return { id, attributes := ((j.member? "attributes").map Attributes.ofJson).getD ∅ }

/-- The descriptor of a JSON form. -/
def ofJson (j : Json) : Except Json.Fault Descriptor := do
  let name ← (← j.member "name").getString
  let minRuntimeVersion ← j.memberD "minRuntimeVersion" Json.getString ""
  let describer ← (j.member? "extensionModelLoaderDescriptor").mapM describerOfJson
  return { name, minRuntimeVersion, describer }

/-- The descriptor of a document that was read; `source` is where it came from. -/
def ofDocument (source : String) (j : Json) : Except Failure Descriptor :=
  match ofJson j with
  | .error fault =>
    .error (Manifest.unusable source s!"Invalid plugin descriptor {source}: {fault.message}")
  | .ok d =>
    if d.name = "" then
      .error (Manifest.unusable source s!"Plugin descriptor {source} has an empty name")
    else .ok d

/-- The descriptor that bytes form.  A number that is too large is a fault of the document, not
of the descriptor. -/
def parse (content : ByteArray) (source : String) : Except Failure Descriptor :=
  match Json.read content with
  | .ok j => ofDocument source j
  | .error .malformed =>
    .error (Manifest.unusable source
      s!"Malformed plugin descriptor {source}: {Json.Fault.malformed.message}")
  | .error fault => .error (.json fault)

/-- The descriptor in a file. -/
def read (files : FileSystem) (path : Path) : Except Failure Descriptor :=
  match files.read? path with
  | some content => parse content path.text
  | none =>
    .error (Manifest.unusable path.text s!"Cannot open plugin descriptor {path.text}")

end Descriptor

/-- A plugin of an artifact.  It has a name. -/
structure Plugin where
  descriptor : Descriptor
  files : LoadingContext
  named : descriptor.name ≠ "" := by decide

namespace Plugin

/-- The name of a plugin. -/
def name (p : Plugin) : String := p.descriptor.name

theorem name_ne_empty (p : Plugin) : p.name ≠ "" := p.named

/-- The plugin of a descriptor and its files; the files have to be given, and the name must not
be empty. -/
def make (descriptor : Descriptor) (files : Option LoadingContext) : Except Failure Plugin :=
  match files with
  | none => .error (.invalidArgument s!"Plugin '{descriptor.name}' has no loading context")
  | some files =>
    if named : descriptor.name = "" then
      .error (.invalidArgument "Plugin descriptors must have a name")
    else .ok { descriptor, files, named }

/-- The descriptor of the plugin in a directory. -/
def describe (files : FileSystem) (root : Path) (config : Config) :
    Except Failure Descriptor :=
  let context : LoadingContext := { artifactId := root.lastName, root, files }
  match context.findResource ⟨config.descriptorPath⟩ with
  | some location => Descriptor.read files location
  | none => .ok { name := root.lastName }

/-- The plugin in a directory. -/
def ofDirectory (files : FileSystem) (root : Path) (config : Config) : Except Failure Plugin := do
  let descriptor ← describe files root config
  make descriptor (some { artifactId := descriptor.name, root, files })

end Plugin

end PluginHost
