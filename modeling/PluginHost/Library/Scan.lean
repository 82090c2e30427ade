import PluginHost.Library.Basic

/-!
# Scanning directories for libraries

`Library.scan` loads every loader library that it finds in some directories.  A directory is
given by a pattern: "dir" or "dir/*" for its own files, "dir/**" for all below it.  A library
that fails to load is reported and skipped.
-/

namespace PluginHost

/-- What a scan did. -/
structure ScanReport where
  attempted : Nat := 0
  loaded : Nat := 0
  /-- The registered ids, library by library. -/
  ids : List String := []
  /-- The libraries that were skipped, and why. -/
  failures : List (Path × LibraryFault) := []
  deriving DecidableEq

namespace Library

/-- The directory that a pattern means, and whether all below it is meant. -/
def target (pattern : String) : String × Bool :=
  let reversed := pattern.toList.reverse
  match reversed with
  | '*' :: '*' :: '/' :: dir => (String.ofList dir.reverse, true)
  | '*' :: '/' :: dir => (String.ofList dir.reverse, false)
  | _ => (pattern, false)

/-- Whether a listed entry leads to a file and has the extension of libraries. -/
def isCandidate (files : FileSystem) (e : FileSystem.Listed) : Bool :=
  match files.statusOf e with
  | .ok (.file _) => Path.extensionOf e.path.lastName = fileExtension
  | _ => false

/-- The entries that a pattern gives, in listing order; none if there is no such directory. -/
def listed? (files : FileSystem) (pattern : String) : Option (List FileSystem.Listed) :=
  let (dir, deep) := target pattern
  if dir = "" then none
  else
    match if deep then files.listBelow ⟨dir⟩ else files.list ⟨dir⟩ with
    | .ok entries => some entries
    | .error _ => none

/-- The libraries that a pattern gives, ascending. -/
def collect (files : FileSystem) (pattern : String) : Traced (List Path) :=
  match listed? files pattern with
  | none => do
    Traced.emit .warning s!"Loader library directory not found: {pattern}"
    return []
  | some entries => return Path.sort ((entries.filter (isCandidate files)).map (·.path))

/-- The state of a scan. -/
structure Scan where
  repository : Repository
  report : ScanReport := {}
  /-- The paths that were attempted. -/
  seen : List Path := []

namespace Scan

/-- The scan with a library reported as skipped. -/
def skip (s : Scan) (path : Path) (fault : LibraryFault) : Traced Scan := do
  Traced.emit .warning fault.message
  return { s with report := { s.report with failures := s.report.failures ++ [(path, fault)] } }

/-- Registers the loaders of an open library. -/
def enroll (s : Scan) (library : Library) : Traced Scan := do
  match ← library.registerInto s.repository with
  | .error fault => s.skip library.path fault
  | .ok (repository, ids) =>
    return { s with
      repository
      report := { s.report with loaded := s.report.loaded + 1, ids := s.report.ids ++ ids } }

/-- Loads the library at a path, unless the path was attempted before. -/
def visit (files : FileSystem) (linker : Linker) (s : Scan) (path : Path) : Traced Scan :=
  if s.seen.any path.same then return s
  else
    let counted := { s with
      seen := path :: s.seen
      report := { s.report with attempted := s.report.attempted + 1 } }
    match openAt files linker s.repository.mapped path with
    | .error fault => counted.skip path fault
    | .ok library => counted.enroll library

/-- Loads the libraries at some paths. -/
def visitEach (files : FileSystem) (linker : Linker) (s : Scan) : List Path → Traced Scan
  | [] => return s
  | path :: rest => do visitEach files linker (← s.visit files linker path) rest

/-- Loads the libraries that some patterns give. -/
def visitPatterns (files : FileSystem) (linker : Linker) (s : Scan) :
    List String → Traced Scan
  | [] => return s
  | pattern :: rest => do
    let s ← s.visitEach files linker (← collect files pattern)
    visitPatterns files linker s rest

end Scan

/-- Loads every library that some patterns give into a repository. -/
def scan (files : FileSystem) (linker : Linker) (patterns : List String) (r : Repository) :
    Traced (Repository × ScanReport) := do
  let s ← Scan.visitPatterns files linker { repository := r } patterns
  Traced.emit .info s!"Loaded {s.report.loaded} of {s.report.attempted} loader libraries"
  return (s.repository, s.report)

end Library

end PluginHost
