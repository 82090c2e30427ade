import PluginHost.Extension.Basic
import PluginHost.Json.Basic

/-!
# The JSON form of extensions

`toJson` writes every field, the members by ascending key; an absent default value or output
type has no member.  `ofJson` demands a name, takes defaults for whatever else is absent, and
ignores members that it does not know.  Where a list is expected it takes whatever a loop over
the value visits.
-/

namespace PluginHost

open Json (Fault)

/-- The member of an optional text. -/
def Json.optionalText (key : String) (text : Option String) : List (String × Json) :=
  (text.map fun t => (key, Json.string t)).toList

/-- A member that is a text if it is there. -/
def Json.memberText? (key : String) (j : Json) : Except Fault (Option String) :=
  match j.member? key with
  | some value => some <$> value.getString
  | none => .ok none

/-- The elements of a member, each read by `get`. -/
def Json.memberList {α : Type} (key : String) (get : Json → Except Fault α) (j : Json) :
    Except Fault (List α) :=
  (j.memberElements key).mapM get

/-- The elements of a member, which have to be texts, as a set. -/
def Json.memberNames (key : String) (j : Json) : Except Fault NameSet :=
  NameSet.ofList <$> j.memberList key Json.getString

/-! ### Writing -/

/-- The JSON form of a parameter. -/
def Parameter.toJson (p : Parameter) : Json :=
  .object (Json.optionalText "defaultValue" p.defaultValue ++
    [("name", .string p.name), ("required", .bool p.required), ("type", .string p.type)])

/-- The JSON form of an operation. -/
def Operation.toJson (o : Operation) : Json :=
  .object ([("description", .string o.description), ("name", .string o.name)] ++
    Json.optionalText "outputType" o.outputType ++
    [("parameters", .array (o.parameters.map Parameter.toJson))])

/-- The JSON form of a configuration. -/
def Configuration.toJson (c : Configuration) : Json :=
  .object [("description", .string c.description), ("name", .string c.name),
    ("parameters", .array (c.parameters.map Parameter.toJson))]

/-- The JSON form of an extension. -/
def Extension.toJson (e : Extension) : Json :=
  .object [("category", .string e.category),
    ("configurations", .array (e.configurations.map Configuration.toJson)),
    ("description", .string e.description),
    ("exportedTypes", Json.ofStrings e.exportedTypes.names),
    ("importedTypes", Json.ofStrings e.importedTypes.names),
    ("name", .string e.name),
    ("operations", .array (e.operations.map Operation.toJson)),
    ("vendor", .string e.vendor),
    ("version", .string e.version)]

/-! ### Reading -/

/-- The parameter of a JSON form. -/
def Parameter.ofJson (j : Json) : Except Fault Parameter := do
  let name ← (← j.member "name").getString
  let type ← j.memberD "type" Json.getString "string"
  let required ← j.memberD "required" Json.getBool false
  let defaultValue ← j.memberText? "defaultValue"
  return { name, type, required, defaultValue }

/-- The operation of a JSON form. -/
def Operation.ofJson (j : Json) : Except Fault Operation := do
  let name ← (← j.member "name").getString
  let description ← j.memberD "description" Json.getString ""
  let parameters ← j.memberList "parameters" Parameter.ofJson
  let outputType ← j.memberText? "outputType"
  return { name, description, parameters, outputType }

/-- The configuration of a JSON form. -/
def Configuration.ofJson (j : Json) : Except Fault Configuration := do
  let name ← (← j.member "name").getString
  let description ← j.memberD "description" Json.getString ""
  let parameters ← j.memberList "parameters" Parameter.ofJson
  return { name, description, parameters }

/-- The extension of a JSON form. -/
def Extension.ofJson (j : Json) : Except Fault Extension := do
  let name ← (← j.member "name").getString
  let version ← j.memberD "version" Json.getString ""
  let vendor ← j.memberD "vendor" Json.getString ""
  let category ← j.memberD "category" Json.getString ""
  let description ← j.memberD "description" Json.getString ""
  let exportedTypes ← j.memberNames "exportedTypes"
  let importedTypes ← j.memberNames "importedTypes"
  let operations ← j.memberList "operations" Operation.ofJson
  let configurations ← j.memberList "configurations" Configuration.ofJson
  return { name, version, vendor, category, description, exportedTypes, importedTypes,
           operations, configurations }

end PluginHost
