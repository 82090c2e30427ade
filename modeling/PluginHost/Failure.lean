import PluginHost.Json.Basic
import PluginHost.Text.Utf8

/-!
# Failures

What goes wrong, as data.  A `ConfigurationError` is a defect of what is being deployed: it
carries the loader and the plugin that it concerns as far as they are known, and a
`ConfigurationError.Kind` with what is particular to its kind.  The other failures are those of
documents, of arguments, of the running system and of its files.

The wording of the failures that this library raises itself stands in the functions of this
module.
-/

namespace PluginHost

/-- A rule that an extension model breaks. -/
inductive Problem where
  | emptyName
  | invalidVersion (text : String)
  | repeatedOperation (name : String)
  | repeatedConfiguration (name : String)
  /-- A parameter without a name, of the operation or configuration described by `owner`. -/
  | unnamedParameter (owner : String)
  | repeatedParameter (owner name : String)
  | unresolvedImport (type : String)
  /-- A breach that a loader reports in its own words. -/
  | other (text : String)
  deriving DecidableEq, Repr

/-- The wording of a broken rule. -/
def Problem.message : Problem → String
  | emptyName => "the extension name is empty"
  | invalidVersion text => s!"version '{text}' is not a valid version"
  | repeatedOperation name => s!"operation '{name}' is declared more than once"
  | repeatedConfiguration name => s!"configuration '{name}' is declared more than once"
  | unnamedParameter owner => s!"{owner} declares a parameter without a name"
  | repeatedParameter owner name => s!"{owner} declares parameter '{name}' more than once"
  | unresolvedImport type =>
    s!"imported type '{type}' is not exported by any extension resolved before this one"
  | other text => text

/-- What is particular to a configuration error. -/
inductive ConfigurationError.Kind where
  | general
  /-- A loader did not produce a model. -/
  | loading
  /-- A loader attribute is missing or has the wrong type. -/
  | parameter (name : String)
  /-- A loader produced a model that breaks rules. -/
  | definition (problems : List Problem)
  /-- A manifest or descriptor is unreadable. -/
  | manifest (resource : String)
  deriving DecidableEq, Repr

/-- A defect of what is being deployed.  An empty loader id or plugin name is an unknown one. -/
structure ConfigurationError where
  kind : ConfigurationError.Kind
  message : String
  loaderId : String := ""
  pluginName : String := ""
  deriving DecidableEq, Repr

namespace ConfigurationError

/-- The error with the plugin named that was being worked on, unless it names one already. -/
def attributeTo (plugin : String) (e : ConfigurationError) : ConfigurationError :=
  if e.pluginName ≠ "" ∨ plugin = "" then e
  else { e with message := s!"{e.message} (plugin '{plugin}')", pluginName := plugin }

/-- A plugin asks for a loader that nobody registered. -/
def unknownLoader (id plugin : String) : ConfigurationError where
  kind := .general
  message := s!"The identifier '{id}' does not match with the describers available to generate an ExtensionModel (working with the plugin '{plugin}')"
  loaderId := id
  pluginName := plugin

/-- A loader failed in a way that is no configuration error. -/
def loaderFailed (plugin reason : String) : ConfigurationError where
  kind := .loading
  message := s!"Failed to load the extension of plugin '{plugin}': {reason}"
  pluginName := plugin

/-- An attribute has another type than the one asked for. -/
def mistypedAttribute (key : String) : ConfigurationError where
  kind := .parameter key
  message := s!"Loader attribute '{key}' has an unexpected type"

/-- A demanded attribute is absent or empty. -/
def missingAttribute (key : String) : ConfigurationError where
  kind := .parameter key
  message := s!"Required loader attribute '{key}' is missing"

/-- The attribute `key` holds something that is no extension type. -/
def invalidType (key type : String) : ConfigurationError where
  kind := .parameter key
  message := s!"Invalid extension type '{type}'"

/-- A plugin does not ship the declaration of a type. -/
def typeNotFound (type artifactId resource : String) : ConfigurationError where
  kind := .loading
  message := s!"Extension type '{type}' not found in plugin '{artifactId}' (expected resource {resource})"

/-- A declaration cannot be opened. -/
def unreadableDeclaration (location : String) : ConfigurationError where
  kind := .loading
  message := s!"Cannot read extension declaration {location}"

/-- A declaration is no JSON form of a model. -/
def malformedDeclaration (location : String) (fault : Json.Fault) : ConfigurationError where
  kind := .loading
  message := s!"Malformed extension declaration {location}: {fault.message}"

/-- A model breaks rules. -/
def invalidDefinition (extension : String) (problems : List Problem) : ConfigurationError where
  kind := .definition problems
  message := problems.foldl (fun text p => s!"{text}\n  - {p.message}")
    s!"Extension '{extension}' has an invalid definition:"

/-- A document of a plugin cannot be used: `what` it is, and why. -/
def unusableDocument (resource message : String) : ConfigurationError where
  kind := .manifest resource
  message := message

end ConfigurationError

/-- Why an operation failed. -/
inductive Failure where
  | configuration (error : ConfigurationError)
  /-- A fault of a JSON document that nothing reported in terms of the domain. -/
  | json (fault : Json.Fault)
  | invalidArgument (message : String)
  /-- A failure of the running system, or any other of which no more than the wording is known. -/
  | runtime (message : String)
  | fileSystem (message : String)
  deriving DecidableEq, Repr

namespace Failure

/-- The full wording of a failure. -/
def message : Failure → String
  | configuration error => error.message
  | json fault => fault.message
  | invalidArgument message => message
  | runtime message => message
  | fileSystem message => message

/-- The wording as it is reported: it ends before its first NUL character. -/
def what (failure : Failure) : String := Text.untilNul failure.message

/-- The failure of a load as an error of the plugin that was being loaded. -/
def ofPlugin (plugin : String) : Failure → ConfigurationError
  | configuration error => error.attributeTo plugin
  | failure => .loaderFailed plugin failure.what

end Failure

end PluginHost
