import PluginHost.Loader.Basic

/-!
# Ready-made loaders

Loaders for hosts that need no files: one that always declares the same extension, and one that
builds the extension from the attributes.
-/

namespace PluginHost.Loader

/-- The loader that always declares the same extension. -/
def fixed (id : String) (extension : Extension) : Loader where
  id := id
  declare _ := return extension

/-- The extension that attributes spell out: `name` is demanded, `version` has a default, and
`exports` and `imports` name one type each. -/
def declareFromAttributes (defaultVersion vendor : String) (request : Request) :
    Except Failure Extension := do
  let name ← request.requireText "name"
  let version := (← request.attribute? .string "version").getD defaultVersion
  let exported ← request.attribute? .string "exports"
  let imported ← request.attribute? .string "imports"
  return { name, version, vendor
           exportedTypes := NameSet.ofList exported.toList
           importedTypes := NameSet.ofList imported.toList }

/-- The loader that builds extensions from the attributes of requests. -/
def fromAttributes (id : String) (vendor : String := "") : Loader where
  id := id
  declare request := Traced.ofExcept (declareFromAttributes "1.0.0" vendor request)

end PluginHost.Loader
