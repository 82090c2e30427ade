import PluginHost.Discovery.Run
import PluginHost.Manager

/-!
# Deployment

The manager of an artifact with the extensions of its plugins registered.  Discovery is over
before anything is registered, so a manager is left as it was made if discovery fails.
-/

namespace PluginHost

/-- Makes the manager of an artifact, or none. -/
abbrev ManagerFactory := Traced (Option Manager)

/-- The factory of managers without extensions. -/
def ManagerFactory.standard : ManagerFactory := return some ∅

/-- What is deployed, and with what. -/
structure Deployment where
  plugins : List Plugin
  repository : Repository
  factory : ManagerFactory
  config : Config := {}

/-- What a deployment left behind. -/
structure Deployed where
  /-- The manager that was made, as it is at the end. -/
  manager : Option Manager
  /-- The manager with all extensions of the plugins, or the failure. -/
  result : Traced Manager

namespace Deployment

/-- A deployment with a factory, which has to be given. -/
def make (plugins : List Plugin) (repository : Repository) (factory : Option ManagerFactory)
    (config : Config) : Except Failure Deployment :=
  match factory with
  | some factory => .ok { plugins, repository, factory, config }
  | none => .error (.invalidArgument "An extension manager factory is required")

/-- Discovers the extensions of the plugins. -/
def discover (d : Deployment) : Traced Findings := do
  (← Traced.ofExcept (Discovery.make d.repository (some Loader.native) d.config)).run d.plugins

/-- Discovers the extensions of the plugins and registers them with a manager. -/
def fill (d : Deployment) (m : Manager) : Deployed :=
  match d.discover.outcome with
  | .error _ => { manager := some m, result := do let _ ← d.discover; return m }
  | .ok f =>
    let (last, registration) := m.registerEach f.extensions.toList
    { manager := some last
      result := do
        let _ ← d.discover
        registration
        return last }

/-- Makes a manager and fills it. -/
def create (d : Deployment) : Deployed :=
  match d.factory.outcome with
  | .ok (some m) =>
    let filled := d.fill m
    { filled with result := do let _ ← d.factory; filled.result }
  | _ =>
    { manager := none
      result := do
        let _ ← d.factory
        Traced.fail (.runtime "The extension manager factory returned no manager") }

end Deployment

end PluginHost
