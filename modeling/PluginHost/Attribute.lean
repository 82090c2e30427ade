import PluginHost.Json.Basic
import PluginHost.KeyMap

/-!
# Loader attributes

The typed values that a plugin hands to its loader.  `Attribute.ofJson` gives every JSON value
exactly one type: integers have 64 bits with a sign where they fit, and without one above that.
-/

namespace PluginHost

/-- The types of attributes. -/
inductive AttributeType where
  | string | bool | int64 | uint64 | double | json
  deriving DecidableEq, Repr

/-- The values of a type of attributes.  Doubles are given by their bits. -/
abbrev AttributeType.Value : AttributeType → Type
  | string => String
  | bool => Bool
  | int64 => Int64
  | uint64 => UInt64
  | double => UInt64
  | json => Json

/-- A value with its type. -/
structure Attribute where
  type : AttributeType
  value : type.Value

/-- Attributes under their keys. -/
abbrev Attributes := KeyMap Attribute

namespace Attribute

/-- The attribute of a text. -/
def ofText (text : String) : Attribute := ⟨.string, text⟩

/-- The attribute of an integer. -/
def ofInt (value : Int) : Attribute :=
  if value ≤ Int64.maxValue.toInt then ⟨.int64, Int64.ofInt value⟩ else ⟨.uint64, UInt64.ofNat value.toNat⟩

/-- The attribute of a JSON value. -/
def ofJson : Json → Attribute
  | .string text => ofText text
  | .bool value => ⟨.bool, value⟩
  | .int value => ofInt value
  | .float bits => ⟨.double, bits⟩
  | value => ⟨.json, value⟩

/-- The value of an attribute that has a given type. -/
def as? (type : AttributeType) (a : Attribute) : Option type.Value :=
  if h : a.type = type then some (h ▸ a.value) else none

end Attribute

/-- The attributes that the keyed elements of a JSON value make. -/
def Attributes.ofJson (j : Json) : Attributes :=
  KeyMap.ofList (j.keyedElements.map fun e => (e.1, Attribute.ofJson e.2))

/-- Which loader a plugin asks for, and with which attributes. -/
structure Describer where
  /-- The id of a loader. -/
  id : String
  attributes : Attributes := ∅

end PluginHost
