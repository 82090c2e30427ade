import PluginHost.Deployment
import PluginHost.Library.Scan

/-!
# The deployment program

`Program.run` deploys an artifact: every directory in the artifact's own directory is a plugin,
taken by ascending path.  The loaders are the built-in one and those of the libraries that the
configuration points to.  The extensions are listed on the standard output once everything is
deployed; until then nothing is.
-/

namespace PluginHost

/-- What a run of the program shows. -/
structure ProgramRun where
  exitCode : Nat
  output : String := ""
  errors : String := ""
  log : List LogEntry := []
  deriving DecidableEq

namespace Program

/-- How the program is called. -/
def usage (program : String) : String :=
  s!"Usage: {program} <artifact-dir> [discovery-config.json]\n"

/-- The line that reports a failure. -/
def report : Failure → String
  | .configuration error => s!"Deployment failed: {(Failure.configuration error).what}\n"
  | failure => s!"Error: {failure.what}\n"

/-- The line that reports a library which was skipped. -/
def notice (failure : Path × LibraryFault) : String :=
  s!"Skipped loader library {failure.1.text}: {failure.2.message}\n"

/-- The line of an extension. -/
def line (e : Extension) : String :=
  s!"- {e.name} {e.version} ({e.operations.length} operations)\n"

/-- The listing of the extensions of an artifact. -/
def listing (artifact : String) (m : Manager) : String :=
  String.join (s!"Extensions of {artifact}:\n" :: m.toList.map line)

/-- The configuration in the file that was named, if one was, and the level of its log. -/
def configure (files : FileSystem) (file : Option String) : Except Failure (Config × LogLevel) := do
  let config ← match file with
    | some path => Config.read files ⟨path⟩
    | none => .ok {}
  return (config, ← LogLevel.ofName config.logLevel)

/-- The loaders: the built-in one and those of the libraries. -/
def boot (files : FileSystem) (linker : Linker) (config : Config) :
    Traced (Repository × ScanReport) := do
  let builtin ← Repository.register ∅ (some Loader.native)
  let (repository, scanned) ← Library.scan files linker config.libraryDirectories builtin
  return (repository.close, scanned)

/-- Whether an entry of the artifact's directory is a directory. -/
def isPluginRoot (files : FileSystem) (e : FileSystem.Listed) : Except Failure Bool :=
  match files.statusOf e with
  | .ok .directory => .ok true
  | .ok _ => .ok false
  | .error .missing => .ok false
  | .error .notDirectory => .ok false
  | .error error =>
    .error (.fileSystem s!"filesystem error: status: {error.message} [{e.path.text}]")

/-- The directories of the plugins of an artifact, ascending. -/
def pluginRoots (files : FileSystem) (artifact : Path) : Except Failure (List Path) :=
  match files.list artifact with
  | .error e =>
    .error (.fileSystem
      s!"filesystem error: directory iterator cannot open directory: {e.message} [{artifact.text}]")
  | .ok entries => do
    return Path.sort ((← entries.filterM (isPluginRoot files)).map (·.path))

/-- The plugins of an artifact. -/
def plugins (files : FileSystem) (artifact : Path) (config : Config) :
    Except Failure (List Plugin) := do
  (← pluginRoots files artifact).mapM fun root => Plugin.ofDirectory files root config

/-- Deploys an artifact with the loaders of a repository. -/
def deploy (files : FileSystem) (artifact : Path) (config : Config) (repository : Repository) :
    Traced Manager := do
  let plugins ← Traced.ofExcept (plugins files artifact config)
  (Deployment.create { plugins, repository, factory := .standard, config }).result

/-- Deploys an artifact as a configuration says. -/
def runWith (files : FileSystem) (linker : Linker) (artifact : String) (config : Config)
    (level : LogLevel) : ProgramRun :=
  let booted := boot files linker config
  let notices := match booted.outcome with
    | .ok (_, scanned) => String.join (scanned.failures.map notice)
    | .error _ => ""
  let deployed := do
    let (repository, _) ← booted
    deploy files ⟨artifact⟩ config repository
  let log := { Logger.standard with level }.select deployed.log
  match deployed.outcome with
  | .ok m => { exitCode := 0, output := listing artifact m, errors := notices, log }
  | .error failure => { exitCode := 1, errors := notices ++ report failure, log }

/-- Runs the program with its arguments: the directory of an artifact, and the file of a
configuration. -/
def run (program : String) (files : FileSystem) (linker : Linker) : List String → ProgramRun
  | [] => { exitCode := 2, errors := usage program }
  | artifact :: rest =>
    match configure files rest.head? with
    | .error failure => { exitCode := 1, errors := report failure }
    | .ok (config, level) => runWith files linker artifact config level

end Program

end PluginHost
