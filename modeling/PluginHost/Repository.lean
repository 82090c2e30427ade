import PluginHost.Loader.Basic

/-!
# Loader repositories

The loaders that plugins can ask for, under their ids.  A repository is filled first, one
loader at a time or by batches that succeed as a whole or not at all, and then sealed.
-/

namespace PluginHost

/-- The available loaders. -/
structure Repository where
  loaders : KeyMap Loader := ∅
  isSealed : Bool := false

namespace Repository

/-- The repository without loaders, open for registration. -/
def empty : Repository := {}

instance : EmptyCollection Repository := ⟨empty⟩

instance : Inhabited Repository := ⟨empty⟩

/-! ### Lookups -/

/-- The loader of an id. -/
def find? (r : Repository) (id : String) : Option Loader := r.loaders.find? id

/-- Whether there is a loader of an id. -/
def has (r : Repository) (id : String) : Bool := r.loaders.contains id

/-- The ids of the loaders, ascending. -/
def ids (r : Repository) : List String := r.loaders.keys

/-- How many loaders there are. -/
def size (r : Repository) : Nat := r.loaders.size

/-- The libraries that the loaders keep mapped. -/
def mapped (r : Repository) : List Path := r.loaders.values.flatMap (·.keeps)

/-! ### Registration -/

/-- No loader was given. -/
def absentLoader : Failure := .invalidArgument "Cannot register a null extension model loader"

/-- A loader without an id was given. -/
def unnamedLoader : Failure :=
  .invalidArgument "Extension model loaders must have a non empty id"

/-- The id of a loader is taken. -/
def takenId (id : String) : Failure :=
  .runtime s!"An extension model loader is already registered with id '{id}'"

/-- A loader that can be registered at all. -/
def proper : Option Loader → Except Failure Loader
  | none => .error absentLoader
  | some loader => if loader.id = "" then .error unnamedLoader else .ok loader

/-- The repository with a loader put under its id. -/
def put (r : Repository) (loader : Loader) : Repository :=
  { r with loaders := r.loaders.insert loader.id loader }

/-- Puts a loader under its id and says so. -/
def putLogged (r : Repository) (loader : Loader) : Traced Repository := do
  Traced.emit .debug s!"[LoaderRepository] Registered extension model loader '{loader.id}'"
  return r.put loader

/-- Registers one loader. -/
def register (r : Repository) (loader : Option Loader) : Traced Repository := do
  let loader ← Traced.ofExcept (proper loader)
  if r.isSealed then
    Traced.fail (.runtime
      s!"Cannot register loader '{loader.id}': the loader repository is sealed")
  else if r.has loader.id then Traced.fail (takenId loader.id)
  else r.putLogged loader

/-- Registers loaders one after the other. -/
def registerEach (r : Repository) : List (Option Loader) → Traced Repository
  | [] => return r
  | loader :: rest => do (← r.register loader).registerEach rest

/-- The first id of a list that is taken already or by an earlier one of the list. -/
def firstTaken? (r : Repository) : List String → List String → Option String
  | _, [] => none
  | earlier, id :: rest =>
    if r.has id ∨ id ∈ earlier then some id else r.firstTaken? (id :: earlier) rest

/-- Puts loaders under their ids one after the other and says so. -/
def putEachLogged (r : Repository) : List Loader → Traced Repository
  | [] => return r
  | loader :: rest => do (← r.putLogged loader).putEachLogged rest

/-- Registers loaders as a whole: either all of them or none. -/
def registerBatch (r : Repository) (loaders : List (Option Loader)) : Traced Repository := do
  let loaders ← Traced.ofExcept (loaders.mapM proper)
  if r.isSealed then
    Traced.fail (.runtime "Cannot register loaders: the loader repository is sealed")
  else
    match r.firstTaken? [] (loaders.map (·.id)) with
    | some id => Traced.fail (takenId id)
    | none => r.putEachLogged loaders

/-- The repository closed for registration. -/
def close (r : Repository) : Repository := { r with isSealed := true }

end Repository

end PluginHost
