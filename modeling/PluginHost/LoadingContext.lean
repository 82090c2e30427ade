import PluginHost.FileSystem.Resolve

/-!
# Loading contexts

What a loader sees of the files of the plugin that it works on.  `LoadingContext.findResource`
locates a resource by its path below the plugin's root; nothing outside the root is found, by
whatever names or links.
-/

namespace PluginHost

/-- The files of one plugin. -/
structure LoadingContext where
  /-- The name of the plugin. -/
  artifactId : String
  /-- The plugin's own directory. -/
  root : Path
  files : FileSystem

namespace LoadingContext

/-- Whether the canonical place of a path lies in the plugin's own directory.  An empty root is
no directory to stay in, so it confines nothing. -/
def confines (c : LoadingContext) (path : Path) : Bool :=
  match c.files.canonical path with
  | .error _ => false
  | .ok place =>
    if c.root.text = "" then true
    else
      match c.files.canonical c.root with
      | .ok home => home.isPrefixOf place
      | .error _ => false

/-- The parts of a resource's path in normal form, if it stays below where it starts. -/
def relativeParts? (resource : Path) : Option Path.Parts :=
  let parts := resource.parts.normal
  if resource.text = "" ∨ parts.rooted ∨ parts.names.head? = some ".." then none else some parts

/-- The location of a resource: a file below the root. -/
def findResource (c : LoadingContext) (resource : Path) : Option Path := do
  let parts ← relativeParts? resource
  let candidate := c.root / parts.path
  if c.files.isFile candidate && c.confines candidate then some candidate else none

end LoadingContext

end PluginHost
