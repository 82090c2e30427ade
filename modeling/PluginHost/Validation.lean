import PluginHost.ResolutionContext
import PluginHost.Version

/-!
# Validation

The rules that a declared extension has to keep: it has a name and a readable version, the
names of its operations, of its configurations and of the parameters of each of them are
distinct, parameters have names, and every imported type is exported by the extension itself
or resolved in the context.  `Extension.problems` lists the breaches in the order of the rules.
-/

namespace PluginHost

/-- The breaches of a list of parameters, of which those named in `seen` came before. -/
def Parameter.problems (owner : String) : List String → List Parameter → List Problem
  | _, [] => []
  | seen, p :: rest =>
    if p.name = "" then .unnamedParameter owner :: problems owner seen rest
    else if p.name ∈ seen then .repeatedParameter owner p.name :: problems owner seen rest
    else problems owner (p.name :: seen) rest

/-- The breaches of one operation. -/
def Operation.problems (o : Operation) : List Problem :=
  Parameter.problems s!"operation '{o.name}'" [] o.parameters

/-- The breaches of a list of operations, of which those named in `seen` came before. -/
def Operation.listProblems : List String → List Operation → List Problem
  | _, [] => []
  | seen, o :: rest =>
    (if o.name ∈ seen then [.repeatedOperation o.name] else []) ++ o.problems ++
      listProblems (o.name :: seen) rest

/-- The breaches of one configuration. -/
def Configuration.problems (c : Configuration) : List Problem :=
  Parameter.problems s!"configuration '{c.name}'" [] c.parameters

/-- The breaches of a list of configurations, of which those named in `seen` came before. -/
def Configuration.listProblems : List String → List Configuration → List Problem
  | _, [] => []
  | seen, c :: rest =>
    (if c.name ∈ seen then [.repeatedConfiguration c.name] else []) ++ c.problems ++
      listProblems (c.name :: seen) rest

namespace Extension

/-- The breaches of the rule on imported types. -/
def importProblems (e : Extension) (context : ResolutionContext) : List Problem :=
  (e.importedTypes.names.filter fun type =>
    decide (type ∉ e.exportedTypes) && (context.resolveType type).isNone).map .unresolvedImport

/-- The breaches of all rules. -/
def problems (e : Extension) (context : ResolutionContext) : List Problem :=
  (if e.name = "" then [.emptyName] else []) ++
    (if Version.isValid e.version then [] else [.invalidVersion e.version]) ++
    Operation.listProblems [] e.operations ++
    Configuration.listProblems [] e.configurations ++
    e.importProblems context

/-- Whether the extension keeps all rules, as an error that lists the breaches if not. -/
def validate (e : Extension) (context : ResolutionContext) : Except Failure Unit :=
  match e.problems context with
  | [] => .ok ()
  | problems => .error (.configuration (.invalidDefinition e.name problems))

end Extension

end PluginHost
