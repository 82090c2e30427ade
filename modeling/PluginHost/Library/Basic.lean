import PluginHost.FileSystem.Resolve
import PluginHost.Repository

/-!
# Loader libraries

A loader library is a shared object whose entry point registers loaders.  What a path amounts to
as a shared object is up to a `Linker`, which looks at the libraries that are mapped, too.
`Library.registerInto` registers the loaders of a library in a repository: all of them, or none.
The loaders then keep their library mapped.
-/

namespace PluginHost

/-- What the entry point of a library does: it registers loaders one after the other, and may
fail behind the last one. -/
structure LibraryImage where
  offered : List (Option Loader)
  failure : Option Failure := none

/-- What a file is to the linker. -/
inductive SharedObject where
  /-- The file cannot be opened as a shared object. -/
  | unloadable (reason : String)
  /-- The file is a shared object without the entry point. -/
  | withoutEntryPoint (reason : String)
  | library (image : LibraryImage)

/-- How paths are understood as shared objects. -/
structure Linker where
  /-- What the content of a file is beside the libraries that are mapped: the file may need
  something that one of them provides. -/
  ofContent : List Path → ByteArray → SharedObject
  /-- What a name without a slash is: it is looked for among the libraries that are mapped and
  those of the system. -/
  ofName : List Path → String → SharedObject :=
    fun _ _ => .unloadable "cannot open shared object file"
  /-- The values of the variables that a path may refer to. -/
  values : List (String × String) := []
  /-- A reference stays within a name of a path. -/
  named : ∀ v ∈ values, '/' ∉ v.1.toList := by decide

namespace Linker

/-- The length of a reference to a variable at the start of a text: the name in braces, or the
name alone unless a letter, a digit or an underscore follows. -/
def referenceLength? (name : List Char) : List Char → Option Nat
  | '\x7b' :: text =>
    if (name ++ ['\x7d']).isPrefixOf text then some (name.length + 2) else none
  | text =>
    if name.isPrefixOf text ∧
        ¬ (text.drop name.length).head?.any (fun c => c.isAlphanum || c = '_') then
      some name.length
    else none

/-- The value of the variable to which a text refers at its start, and the length of the
reference. -/
def reference? (linker : Linker) (text : List Char) : Option (String × Nat) :=
  linker.values.findSome? fun v => (referenceLength? v.1.toList text).map (v.2, ·)

/-- A text with the values in place of the references, which follow a dollar sign.  Of what
comes, `skip` characters belong to a reference already replaced. -/
def expandFrom (linker : Linker) : Nat → List Char → List Char
  | _, [] => []
  | skip + 1, _ :: rest => expandFrom linker skip rest
  | 0, c :: rest =>
    if c = '$' then
      match linker.reference? rest with
      | some (value, length) => value.toList ++ expandFrom linker length rest
      | none => c :: expandFrom linker 0 rest
    else c :: expandFrom linker 0 rest

/-- The path at which the file is that a path with references means. -/
def expand (linker : Linker) (path : Path) : Path :=
  ⟨String.ofList (linker.expandFrom 0 path.text.toList)⟩

end Linker

/-- An open loader library. -/
structure Library where
  path : Path
  image : LibraryImage

/-- Why the loaders of a library are not available. -/
inductive LibraryFault where
  | unloadable (path : Path) (reason : String)
  | withoutEntryPoint (path : Path) (reason : String)
  | repositorySealed (path : Path)
  | entryPointFailed (path : Path) (reason : String)
  | idTaken (path : Path) (id : String)
  | refused (path : Path) (reason : String)
  deriving DecidableEq

namespace Library

/-- The name of the entry point. -/
def entryPoint : String := "hostext_register_loaders"

/-- How the names of libraries end. -/
def fileExtension : String := ".so"

end Library

/-- The wording of a fault. -/
def LibraryFault.message : LibraryFault → String
  | unloadable path reason => s!"Failed to open loader library {path.text}: {reason}"
  | withoutEntryPoint path reason =>
    s!"Loader library {path.text} does not export {Library.entryPoint}: {reason}"
  | repositorySealed path =>
    s!"Cannot register the loaders of {path.text}: the loader repository is sealed"
  | entryPointFailed path reason =>
    s!"Loader library {path.text} failed to register its loaders: {reason}"
  | idTaken path id =>
    s!"Loader library {path.text} provides loader '{id}' which is already registered"
  | refused path reason => s!"Failed to register the loaders of {path.text}: {reason}"

namespace Library

/-- What a path is to the linker beside the libraries that are mapped.  The empty path stands for
the running program, which has no entry point, and a name without a slash for a library of the
system. -/
def sharedObject (files : FileSystem) (linker : Linker) (mapped : List Path) (path : Path) :
    SharedObject :=
  if path.text = "" then .withoutEntryPoint "undefined symbol"
  else if '/' ∈ path.text.toList then
    match files.status (linker.expand path) with
    | .ok (.file content) => linker.ofContent mapped content
    | .ok _ => .unloadable "cannot read file data"
    | .error e => .unloadable s!"cannot open shared object file: {e.message}"
  else linker.ofName mapped path.text

/-- Opens the library at a path beside the libraries that are mapped. -/
def openAt (files : FileSystem) (linker : Linker) (mapped : List Path) (path : Path) :
    Except LibraryFault Library :=
  match sharedObject files linker mapped path with
  | .unloadable reason => .error (.unloadable path reason)
  | .withoutEntryPoint reason => .error (.withoutEntryPoint path reason)
  | .library image => .ok { path, image }

end Library

/-- Runs an entry point on a repository. -/
def LibraryImage.run (image : LibraryImage) (r : Repository) : Traced Repository := do
  let r ← r.registerEach image.offered
  match image.failure with
  | none => return r
  | some failure => Traced.fail failure

namespace Library

/-- The loaders of a repository, each of which keeps a library mapped. -/
def loadersKeeping (path : Path) (staging : Repository) : List Loader :=
  staging.loaders.values.map (·.keeping path)

/-- Puts the loaders of a staging repository into another one, where they keep their library
mapped. -/
def transfer (path : Path) (staging r : Repository) :
    Traced (Except LibraryFault (Repository × List String)) := do
  match staging.ids.find? r.has with
  | some id => return .error (.idTaken path id)
  | none =>
    match ← (r.registerBatch ((loadersKeeping path staging).map some)).attempt with
    | .error failure => return .error (.refused path failure.what)
    | .ok next =>
      Traced.emit .debug
        s!"Registered {staging.ids.length} extension model loader(s) from {path.text}"
      return .ok (next, staging.ids)

/-- Registers the loaders of a library in a repository and gives their ids, ascending.  The
entry point runs on a repository of its own, so that a library of which one loader is refused
registers none. -/
def registerInto (library : Library) (r : Repository) :
    Traced (Except LibraryFault (Repository × List String)) := do
  if r.isSealed then return .error (.repositorySealed library.path)
  else
    match ← (library.image.run ∅).attempt with
    | .error failure => return .error (.entryPointFailed library.path failure.what)
    | .ok staging => transfer library.path staging r

end Library

end PluginHost
