import PluginHost.Program

/-!
# The command line

Runs the deployment program on the files below the current directory.  Links are taken for
what they lead to, and there is no linker: every loader library is reported as unloadable.
-/

namespace PluginHost.CommandLine

/-- Copies what is below a directory into a file system. -/
partial def snapshot (files : FileSystem) (way : List String) : IO FileSystem := do
  let here := (← IO.currentDir) / String.intercalate "/" way
  let mut files := files
  for entry in ← here.readDir do
    let path := way ++ [entry.fileName]
    if ← entry.path.isDir then
      files ← snapshot ((files.makeDirectory? ⟨Path.joinNames path⟩).getD files) path
    else
      let content ← try some <$> IO.FS.readBinFile entry.path catch _ => pure none
      if let some content := content then
        files := (files.writeFile? ⟨Path.joinNames path⟩ content).getD files
  return files

/-- Runs the program with its arguments and gives its exit code. -/
def run (args : List String) : IO UInt32 := do
  let files ← snapshot .empty []
  let result := Program.run "plugin_host" files
    { ofContent := fun _ _ => .unloadable "no shared objects can be opened" } args
  for entry in result.log do
    IO.eprintln s!"[{entry.level.name}] {entry.message}"
  IO.print result.output
  IO.eprint result.errors
  return result.exitCode.toUInt32

end PluginHost.CommandLine

/-- Runs the program and gives its exit code. -/
def main (args : List String) : IO UInt32 := PluginHost.CommandLine.run args
