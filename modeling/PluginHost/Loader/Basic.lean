import PluginHost.LoadingContext
import PluginHost.Traced
import PluginHost.Validation

/-!
# Loaders

A loader turns a request (the files of a plugin, the extensions resolved before it, and the
attributes that the plugin gives) into an extension.  `Loader.load` is how loaders are called:
it validates what the loader declares.
-/

namespace PluginHost

/-- What a loader is given. -/
structure Request where
  files : LoadingContext
  context : ResolutionContext
  attributes : Attributes

namespace Request

/-- Whether there is an attribute of a key. -/
def has (r : Request) (key : String) : Bool := r.attributes.contains key

/-- The attribute of a key, which has to have the given type if it is there. -/
def attribute? (r : Request) (type : AttributeType) (key : String) :
    Except Failure (Option type.Value) :=
  match r.attributes.find? key with
  | none => .ok none
  | some a =>
    match a.as? type with
    | some value => .ok (some value)
    | none => .error (.configuration (.mistypedAttribute key))

/-- The text attribute of a key, which has to be there and must not be empty. -/
def requireText (r : Request) (key : String) : Except Failure String := do
  match ← r.attribute? .string key with
  | some text =>
    if text = "" then .error (.configuration (.missingAttribute key)) else return text
  | none => .error (.configuration (.missingAttribute key))

end Request

/-- A way to turn requests into extensions. -/
structure Loader where
  /-- The id by which plugins ask for the loader. -/
  id : String
  /-- The extension that a request describes. -/
  declare : Request → Traced Extension
  /-- The libraries that the loader keeps mapped: its code is in them. -/
  keeps : List Path := []

namespace Loader

/-- The record of a call of the loader. -/
def callOf (loader : Loader) (request : Request) : LoaderCall where
  loaderId := loader.id
  artifactId := request.files.artifactId
  context := request.context
  attributes := request.attributes

/-- The loader that keeps one more library mapped. -/
def keeping (loader : Loader) (library : Path) : Loader :=
  { loader with keeps := library :: loader.keeps }

@[simp]
theorem id_keeping (loader : Loader) (library : Path) : (loader.keeping library).id = loader.id :=
  rfl

/-- Calls the loader with a request and validates the extension that it declares.  This is the
one call that is recorded. -/
def load (loader : Loader) (request : Request) : Traced Extension := do
  Traced.record (loader.callOf request)
  let extension ← (loader.declare request).withoutCalls
  Traced.ofExcept (extension.validate request.context)
  return extension

end Loader

end PluginHost
