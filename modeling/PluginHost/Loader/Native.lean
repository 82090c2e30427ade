import PluginHost.Json.Reader
import PluginHost.Loader.Basic

/-!
# The built-in loader

The native loader reads the declaration of an extension from the plugin.  The attribute `type`
says which: the type "org.acme.Http" is declared by the resource
"org/acme/Http.extension.json", a JSON form of an extension.  The attribute `version` replaces
the version in it.
-/

namespace PluginHost.Loader.Native

/-- The id of the native loader. -/
def id : String := "native"

/-- The attribute with the type of the extension. -/
def typeKey : String := "type"

/-- The attribute with the version of the extension. -/
def versionKey : String := "version"

/-- How the names of declarations end. -/
def declarationSuffix : String := ".extension.json"

/-- Whether a character may stand in a segment of a type. -/
def isSegmentChar (c : Char) : Bool := c.isAlphanum || c = '_' || c = '$' || c = '-'

/-- The path of a type: its segments with slashes in place of the points between them; none if
a segment is empty or holds another character.  `start` says whether a segment starts here. -/
def typePath? (start : Bool) : List Char → Option (List Char)
  | [] => if start then none else some []
  | c :: rest =>
    if c = '.' then if start then none else (typePath? true rest).map ('/' :: ·)
    else if isSegmentChar c then (typePath? false rest).map (c :: ·)
    else none

/-- The resource that declares a type. -/
def declarationResource (type : String) : Except Failure Path :=
  match typePath? true type.toList with
  | some path => .ok ⟨String.ofList path ++ declarationSuffix⟩
  | none => .error (.configuration (.invalidType typeKey type))

/-- The extension in the declaration at a location. -/
def readDeclaration (files : FileSystem) (location : Path) : Except Failure Extension :=
  match files.read? location with
  | none => .error (.configuration (.unreadableDeclaration location.text))
  | some bytes =>
    match Json.read bytes >>= Extension.ofJson with
    | .ok extension => .ok extension
    | .error fault => .error (.configuration (.malformedDeclaration location.text fault))

/-- The extension that a request declares. -/
def declare (request : Request) : Traced Extension := do
  let type ← Traced.ofExcept (request.requireText typeKey)
  let version ← Traced.ofExcept (request.requireText versionKey)
  let resource ← Traced.ofExcept (declarationResource type)
  match request.files.findResource resource with
  | none =>
    Traced.fail (.configuration (.typeNotFound type request.files.artifactId resource.text))
  | some location =>
    let declared ← Traced.ofExcept (readDeclaration request.files.files location)
    let extension := { declared with version }
    Traced.emit .debug
      s!"[NativeLoader] Declared extension '{extension.name}' {version} from type {type}"
    return extension

end PluginHost.Loader.Native

namespace PluginHost.Loader

/-- The built-in loader. -/
def native : Loader where
  id := Native.id
  declare := Native.declare

end PluginHost.Loader
