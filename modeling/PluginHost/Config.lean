import PluginHost.Failure
import PluginHost.FileSystem.Resolve
import PluginHost.Json.Reader

/-!
# Configuration

What a host can choose about discovery: where plugins keep their documents, where loader
libraries are, and how much is logged.
-/

namespace PluginHost

/-- The choices of a host. -/
structure Config where
  /-- Where a plugin keeps its manifest. -/
  manifestPath : String := "META-INF/extension-manifest.json"
  /-- Where a plugin keeps its descriptor. -/
  descriptorPath : String := "META-INF/plugin.json"
  /-- Directories with loader libraries: "dir", or "dir/**" with all below it. -/
  libraryDirectories : List String := []
  logLevel : String := "info"
  deriving DecidableEq, Inhabited

namespace Config

/-- The JSON form of a configuration. -/
def toJson (c : Config) : Json :=
  .object [("loaderLibraryDirs", Json.ofStrings c.libraryDirectories),
    ("logLevel", .string c.logLevel),
    ("manifestResourcePath", .string c.manifestPath),
    ("pluginDescriptorPath", .string c.descriptorPath)]

/-- The choices in a JSON form; absent ones keep their defaults. -/
def choices (j : Json) : Except Json.Fault Config := do
  let defaults : Config := {}
  let manifestPath ← j.memberD "manifestResourcePath" Json.getString defaults.manifestPath
  let descriptorPath ← j.memberD "pluginDescriptorPath" Json.getString defaults.descriptorPath
  let libraryDirectories ←
    j.memberD "loaderLibraryDirs" Json.getStrings defaults.libraryDirectories
  let logLevel ← j.memberD "logLevel" Json.getString defaults.logLevel
  return { manifestPath, descriptorPath, libraryDirectories, logLevel }

/-- The configuration of a JSON form. -/
def ofJson (j : Json) : Except Failure Config :=
  match choices j with
  | .ok c => .ok c
  | .error fault =>
    .error (.invalidArgument s!"Invalid discovery configuration: {fault.message}")

/-- A directory was opened in place of a configuration. -/
def isDirectory : Failure :=
  .runtime "basic_filebuf::underflow error reading the file: Is a directory"

/-- The configuration in a file. -/
def read (files : FileSystem) (path : Path) : Except Failure Config :=
  match files.status path with
  | .ok (.file content) =>
    match Json.read content with
    | .ok j => ofJson j
    | .error .malformed =>
      .error (.runtime
        s!"Malformed discovery configuration {path.text}: {Json.Fault.malformed.message}")
    | .error fault => .error (.json fault)
  | .ok .directory => .error isDirectory
  | _ => .error (.runtime s!"Cannot open discovery configuration {path.text}")

end Config

end PluginHost
