import PluginHost.Json.Basic
import PluginHost.Json.Token
import PluginHost.KeyMap
import PluginHost.Text.Utf8

/-!
# Reading JSON documents

`Json.read` reads a document from bytes: UTF-8, with an optional byte order mark, one value and
nothing but blanks around it.  The first fault in the text is the one reported.
-/

namespace PluginHost.Json

/-- The object of the members as written: by ascending key, of a repeated key the last value. -/
def ofMembers (members : List (String × Json)) : Json := object (KeyMap.ofList members).entries

/-- The value that a token is by itself. -/
def ofToken : Token → Except Fault Json
  | .null => .ok null
  | .bool value => .ok (bool value)
  | .int value => .ok (int value)
  | .float bits => .ok (float bits)
  | .string text => .ok (string text)
  | .tooLarge => .error .tooLarge
  | _ => .error .malformed

mutual

/-- Reads a value; `fuel` bounds the nesting of the calls. -/
def readValue : Nat → List Token → Except Fault (Json × List Token)
  | 0, _ => .error .malformed
  | _ + 1, [] => .error .malformed
  | _ + 1, .openArray :: .closeArray :: rest => .ok (array [], rest)
  | _ + 1, .openObject :: .closeObject :: rest => .ok (object [], rest)
  | fuel + 1, .openArray :: rest => do
    let (items, rest) ← readItems fuel rest
    return (array items, rest)
  | fuel + 1, .openObject :: rest => do
    let (members, rest) ← readMembers fuel rest
    return (ofMembers members, rest)
  | _ + 1, token :: rest => do return (← ofToken token, rest)

/-- Reads the items of an array that has some, up to its closing bracket. -/
def readItems : Nat → List Token → Except Fault (List Json × List Token)
  | 0, _ => .error .malformed
  | fuel + 1, tokens => do
    let (item, rest) ← readValue fuel tokens
    match rest with
    | .comma :: rest => do
      let (items, rest) ← readItems fuel rest
      return (item :: items, rest)
    | .closeArray :: rest => return ([item], rest)
    | _ => .error .malformed

/-- Reads the members of an object that has some, up to its closing brace. -/
def readMembers : Nat → List Token → Except Fault (List (String × Json) × List Token)
  | fuel + 1, .string key :: .colon :: tokens => do
    let (value, rest) ← readValue fuel tokens
    match rest with
    | .comma :: rest => do
      let (members, rest) ← readMembers fuel rest
      return ((key, value) :: members, rest)
    | .closeObject :: rest => return ([(key, value)], rest)
    | _ => .error .malformed
  | _, _ => .error .malformed

end

/-- The document that a sequence of tokens forms.  A token opens two calls at most, one for its
value and one for what is in it, so the fuel does not show. -/
def ofTokens (tokens : List Token) : Except Fault Json := do
  let (value, rest) ← readValue (2 * tokens.length + 1) tokens
  if rest.isEmpty then return value else .error .malformed

/-- The text behind a byte order mark, if it starts with one. -/
def dropMark : List Char → List Char
  | '\uFEFF' :: rest => rest
  | text => text

/-- The document that bytes form.

Bytes that are ill-formed break the text off at a token that is none, so a number that is too
large is still reported if it stands before them, and a NUL character that ends the text makes
them irrelevant. -/
def read (bytes : ByteArray) : Except Fault Json :=
  let (text, complete) := Text.decode bytes
  ofTokens (Token.ofText (dropMark text) complete)

end PluginHost.Json
