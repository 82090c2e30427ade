import PluginHost.Extension.Basic
import PluginHost.Traced
import PluginHost.Version

/-!
# Extension managers

The extensions that an artifact ends up with, one per name.  Of two extensions of one name the
newer version stays, and the earlier registered one of two versions that rank the same.
-/

namespace PluginHost

/-- The registered extensions of an artifact. -/
structure Manager where
  extensions : KeyMap Extension := ∅
  deriving DecidableEq

namespace Manager

/-- The manager without extensions. -/
def empty : Manager := {}

instance : EmptyCollection Manager := ⟨empty⟩

instance : Inhabited Manager := ⟨empty⟩

/-- The registered extension of a name. -/
def find? (m : Manager) (name : String) : Option Extension := m.extensions.find? name

/-- The registered extensions by ascending name. -/
def toList (m : Manager) : List Extension := m.extensions.values

/-- Whether one version text ranks above another.  Texts that are no versions rank below all
that are. -/
def ranksAbove (candidate registered : String) : Bool :=
  match Version.parse? candidate, Version.parse? registered with
  | none, _ => false
  | some _, none => true
  | some v, some w => v.isNewerThan w

/-- The manager with an extension put under its name. -/
def put (m : Manager) (e : Extension) : Manager :=
  { m with extensions := m.extensions.insert e.name e }

/-- Registers an extension with what is registered under its name. -/
def settle (m : Manager) (e : Extension) : Option Extension → Traced Manager
  | none => do
    Traced.emit .info
      s!"[ExtensionManager] Registering extension {e.name} (version {e.version})"
    return m.put e
  | some registered =>
    if registered.version = e.version then do
      Traced.emit .debug
        s!"[ExtensionManager] Extension {e.name} {e.version} is already registered"
      return m
    else if ranksAbove e.version registered.version then do
      Traced.emit .warning
        s!"[ExtensionManager] Extension {e.name} version {registered.version} replaced by newer version {e.version}"
      return m.put e
    else do
      Traced.emit .warning
        s!"[ExtensionManager] Ignoring extension {e.name} version {e.version}: version {registered.version} is already registered"
      return m

/-- Registers an extension. -/
def register (m : Manager) : Option Extension → Traced Manager
  | none => Traced.fail (.invalidArgument "Cannot register a null extension model")
  | some e => m.settle e (m.find? e.name)

/-- Registers extensions one after the other, up to the first that fails; gives the manager as
it is then. -/
def registerEach (m : Manager) : List Extension → Manager × Traced Unit
  | [] => (m, return)
  | e :: rest =>
    let step := m.register (some e)
    match step.outcome with
    | .ok next =>
      let (last, others) := next.registerEach rest
      (last, do let _ ← step; others)
    | .error _ => (m, do let _ ← step)

end Manager

end PluginHost
