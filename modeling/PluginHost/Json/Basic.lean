/-!
# JSON values

The values of JSON documents, the faults of reading them, and the accessors that the decoders
of this library are written with.  Numbers are integers or IEEE double bits; the members of an
object that was read are in ascending key order.
-/

namespace PluginHost

/-- A JSON value. -/
inductive Json where
  | null
  | bool (value : Bool)
  | int (value : Int)
  /-- The bits of an IEEE double. -/
  | float (bits : UInt64)
  | string (text : String)
  | array (items : List Json)
  | object (members : List (String × Json))
  deriving BEq, Inhabited

namespace Json

/-- Why a document was refused. -/
inductive Fault where
  /-- The text is not JSON. -/
  | malformed
  /-- A number is beyond the largest double. -/
  | tooLarge
  /-- A member was demanded of something that is not an object. -/
  | noObject
  /-- A member was looked for in something that is not an object. -/
  | noMembers
  /-- An object lacks a member. -/
  | missing
  /-- A value has another type than the one asked for. -/
  | mistyped
  deriving DecidableEq, Repr

/-- The text by which a fault is reported. -/
def Fault.message : Fault → String
  | malformed => "[json.exception.parse_error.101]"
  | tooLarge => "[json.exception.out_of_range.406]"
  | noObject => "[json.exception.type_error.304]"
  | noMembers => "[json.exception.type_error.306]"
  | missing => "[json.exception.out_of_range.403]"
  | mistyped => "[json.exception.type_error.302]"

/-! ### Accessors -/

/-- The text of a string. -/
def getString : Json → Except Fault String
  | string text => .ok text
  | _ => .error .mistyped

/-- The value of a truth value. -/
def getBool : Json → Except Fault Bool
  | bool value => .ok value
  | _ => .error .mistyped

/-- The texts of an array of strings. -/
def getStrings : Json → Except Fault (List String)
  | array items => items.mapM getString
  | _ => .error .mistyped

/-- The members of an object all of whose values are strings. -/
def getTexts : Json → Except Fault (List (String × String))
  | object members => members.mapM fun m => do return (m.1, ← m.2.getString)
  | _ => .error .mistyped

/-- A member that has to be there. -/
def member (key : String) : Json → Except Fault Json
  | object members =>
    match members.lookup key with
    | some value => .ok value
    | none => .error .missing
  | _ => .error .noObject

/-- A member, if the value is an object that has it. -/
def member? (key : String) : Json → Option Json
  | object members => members.lookup key
  | _ => none

/-- A member read by `get`, or `default` if the object lacks it. -/
def memberD {α : Type} (key : String) (get : Json → Except Fault α) (default : α) :
    Json → Except Fault α
  | object members =>
    match members.lookup key with
    | some value => get value
    | none => .ok default
  | _ => .error .noMembers

/-- What a loop over the value visits: the items of an array, the values of an object by key,
nothing for `null`, and any other value itself. -/
def elements : Json → List Json
  | null => []
  | array items => items
  | object members => members.map (·.2)
  | value => [value]

/-- What a loop over the value visits together with its keys: positions in an array, and the
empty key for a value that is no container. -/
def keyedElements : Json → List (String × Json)
  | null => []
  | array items => items.mapIdx fun i value => (toString i, value)
  | object members => members
  | value => [("", value)]

/-- The elements of a member, none if it is absent. -/
def memberElements (key : String) (value : Json) : List Json :=
  ((value.member? key).map elements).getD []

/-- An array of strings. -/
def ofStrings (texts : List String) : Json := array (texts.map string)

end Json

end PluginHost
