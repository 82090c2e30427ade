import PluginHost.Json.Basic
import PluginHost.Json.Binary64

/-!
# Writing JSON documents

`Json.print` writes a value without blanks, the members of objects in the order in which the
value holds them.  Of the characters of a string only the quote, the backslash and the control
characters are escaped.  A double is written with all the digits of its exact value.
-/

namespace PluginHost.Json

/-- A hexadecimal digit. -/
def hexDigit (n : Nat) : Char := Nat.digitChar n

/-- A character as it stands in a string. -/
def escape (c : Char) : List Char :=
  if c = '"' then ['\\', '"']
  else if c = '\\' then ['\\', '\\']
  else if c = '\x08' then ['\\', 'b']
  else if c = '\x0c' then ['\\', 'f']
  else if c = '\n' then ['\\', 'n']
  else if c = '\r' then ['\\', 'r']
  else if c = '\t' then ['\\', 't']
  else if c < ' ' then ['\\', 'u', '0', '0', hexDigit (c.toNat / 16), hexDigit (c.toNat % 16)]
  else [c]

/-- A string between its quotes. -/
def quoted (text : String) : List Char := '"' :: text.toList.flatMap escape ++ ['"']

/-- The exact decimal expansion of a double, `null` where the bits are no number. -/
def floatText (bits : UInt64) : List Char :=
  if Binary64.isFinite bits then
    let (negative, significand, power) := Binary64.parts bits
    let sign := if negative then ['-'] else []
    let digits :=
      if 0 ≤ power then Nat.toDigits 10 (significand <<< power.toNat) ++ ['.', '0']
      else Nat.toDigits 10 (significand * Nat.pow 5 (-power).toNat) ++ 'e' :: '-' :: Nat.toDigits 10 (-power).toNat
    sign ++ digits
  else "null".toList

/-- An integer in decimal digits. -/
def intText (value : Int) : List Char :=
  if value < 0 then '-' :: Nat.toDigits 10 value.natAbs else Nat.toDigits 10 value.natAbs

mutual

/-- The characters of a value. -/
def chars : Json → List Char
  | null => "null".toList
  | bool true => "true".toList
  | bool false => "false".toList
  | int value => intText value
  | float bits => floatText bits
  | string text => quoted text
  | array items => '[' :: itemChars items ++ [']']
  | object members => '\x7b' :: memberChars members ++ ['\x7d']

/-- The characters of the items of an array. -/
def itemChars : List Json → List Char
  | [] => []
  | [item] => chars item
  | item :: rest => chars item ++ ',' :: itemChars rest

/-- The characters of the members of an object. -/
def memberChars : List (String × Json) → List Char
  | [] => []
  | [(key, value)] => quoted key ++ ':' :: chars value
  | (key, value) :: rest => quoted key ++ ':' :: chars value ++ ',' :: memberChars rest

end

/-- A value as a JSON text. -/
def print (value : Json) : String := String.ofList (chars value)

end PluginHost.Json
