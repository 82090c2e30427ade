import PluginHost.Digest
import PluginHost.Extension.Codec
import PluginHost.Extension.Set
import PluginHost.Json.Printer

/-!
# Resolution contexts

What a loader may refer to: the extensions resolved before its own plugin, and for each type
that one of them exports the extension that owns it.  Contexts are compared by a digest of
their contents.
-/

namespace PluginHost

namespace ExtensionSet

/-- The owner of each exported type: extensions are visited by ascending name, and the first
that exports a type owns it. -/
def typeOwners (s : ExtensionSet) : KeyMap String :=
  s.toList.foldl (fun owners e =>
    e.exportedTypes.names.foldl (fun owners type => owners.insertNew type e.name) owners) ∅

/-- The JSON form of a set: its extensions by ascending name. -/
def toJson (s : ExtensionSet) : Json := .array (s.toList.map Extension.toJson)

/-- The digest of the text of the JSON form. -/
def fingerprint (s : ExtensionSet) : String := Digest.sha256Hex s.toJson.print

end ExtensionSet

/-- A snapshot of the extensions that were resolved so far. -/
structure ResolutionContext where
  extensions : ExtensionSet
  /-- The name of the extension that owns a type. -/
  owners : KeyMap String
  deriving DecidableEq

namespace ResolutionContext

/-- The context of a set of extensions. -/
def ofSet (s : ExtensionSet) : ResolutionContext := ⟨s, s.typeOwners⟩

/-- The context without extensions. -/
def empty : ResolutionContext := ⟨∅, ∅⟩

instance : EmptyCollection ResolutionContext := ⟨empty⟩

instance : Inhabited ResolutionContext := ⟨empty⟩

/-- The extension of a name. -/
def find? (c : ResolutionContext) (name : String) : Option Extension := c.extensions.find? name

/-- The extension that a type belongs to. -/
def resolveType (c : ResolutionContext) (type : String) : Option Extension :=
  c.owners.find? type >>= c.find?

/-- How many extensions there are. -/
def size (c : ResolutionContext) : Nat := c.extensions.size

/-- The digest of the contents. -/
def fingerprint (c : ResolutionContext) : String := c.extensions.fingerprint

/-- Contexts are the same if their fingerprints are. -/
instance : BEq ResolutionContext := ⟨fun c d => c.fingerprint == d.fingerprint⟩

end ResolutionContext

end PluginHost
