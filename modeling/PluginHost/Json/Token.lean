import PluginHost.Json.Binary64
import PluginHost.Text.Digits

/-!
# The words of a JSON text

`Token.ofText` splits a text into tokens.  A text that is no sequence of tokens gives those
before the fault, followed by the token `bad`, so that a reader meets the faults of a document
in the order in which they stand in it.
-/

namespace PluginHost.Json

/-- A word of a JSON text. -/
inductive Token where
  | openArray | closeArray | openObject | closeObject | comma | colon
  | null
  | bool (value : Bool)
  | int (value : Int)
  | float (bits : UInt64)
  | string (text : String)
  /-- A number beyond the largest double. -/
  | tooLarge
  /-- The place where the text stops being one of tokens. -/
  | bad
  deriving DecidableEq

namespace Token

/-! ### Strings -/

/-- The value of a hexadecimal digit. -/
def hexDigit (c : Char) : Option Nat :=
  if '0' ≤ c ∧ c ≤ '9' then some (c.toNat - '0'.toNat)
  else if 'a' ≤ c ∧ c ≤ 'f' then some (c.toNat - 'a'.toNat + 10)
  else if 'A' ≤ c ∧ c ≤ 'F' then some (c.toNat - 'A'.toNat + 10)
  else none

/-- The value of four hexadecimal digits. -/
def hexUnit (a b c d : Char) : Option Nat := do
  return (((← hexDigit a) * 16 + (← hexDigit b)) * 16 + (← hexDigit c)) * 16 + (← hexDigit d)

/-- The character that a one-letter escape stands for. -/
def escaped : Char → Option Char
  | '"' => some '"'
  | '\\' => some '\\'
  | '/' => some '/'
  | 'b' => some '\x08'
  | 'f' => some '\x0c'
  | 'n' => some '\n'
  | 'r' => some '\r'
  | 't' => some '\t'
  | _ => none

/-- Whether a code unit opens a pair of units. -/
def isHighUnit (u : Nat) : Bool := 0xD800 ≤ u ∧ u < 0xDC00

/-- Whether a code unit closes a pair of units. -/
def isLowUnit (u : Nat) : Bool := 0xDC00 ≤ u ∧ u < 0xE000

/-- The character of a pair of units. -/
def pairedUnits (high low : Nat) : Char :=
  Char.ofNat (0x10000 + (high - 0xD800) * 0x400 + (low - 0xDC00))

/-- Puts a character in front of what was read. -/
def prepend (c : Char) (read : Option (List Char × List Char)) : Option (List Char × List Char) :=
  read.map fun r => (c :: r.1, r.2)

/-- Reads a string from behind its opening quote to its closing one: the characters that it
stands for, and the text behind it. -/
def readString : List Char → Option (List Char × List Char)
  | [] => none
  | c :: rest =>
    if c = '"' then some ([], rest)
    else if c = '\\' then
      match rest with
      | [] => none
      | e :: rest =>
        if e = 'u' then
          match rest with
          | a :: b :: c :: d :: rest =>
            match hexUnit a b c d with
            | none => none
            | some high =>
              if isHighUnit high then
                match rest with
                | s :: u :: a :: b :: c :: d :: rest =>
                  if s = '\\' ∧ u = 'u' then
                    match hexUnit a b c d with
                    | none => none
                    | some low =>
                      if isLowUnit low then prepend (pairedUnits high low) (readString rest)
                      else none
                  else none
                | _ => none
              else if isLowUnit high then none
              else prepend (Char.ofNat high) (readString rest)
          | _ => none
        else
          match escaped e with
          | none => none
          | some c => prepend c (readString rest)
    else if c < ' ' then none
    else prepend c (readString rest)

/-! ### Numbers -/

/-- Reads the integer part: a zero alone, or digits of which the first is not zero. -/
def readInteger (text : List Char) : Option (List Char × List Char) :=
  match text with
  | [] => none
  | c :: rest =>
    if c = '0' then some (['0'], rest)
    else if Text.isDigit c then some (text.takeWhile Text.isDigit, text.dropWhile Text.isDigit)
    else none

/-- Reads the digits behind a point, if there is a point. -/
def readFraction (text : List Char) : Option (Option (List Char) × List Char) :=
  match text with
  | '.' :: rest =>
    let digits := rest.takeWhile Text.isDigit
    if digits.isEmpty then none else some (some digits, rest.dropWhile Text.isDigit)
  | _ => some (none, text)

/-- Reads the digits of an exponent behind its sign. -/
def readExponentDigits (negative : Bool) (text : List Char) :
    Option (Option Int × List Char) :=
  let digits := text.takeWhile Text.isDigit
  if digits.isEmpty then none
  else
    let size : Int := Text.digitsValue digits
    some (some (if negative then -size else size), text.dropWhile Text.isDigit)

/-- Reads an exponent, if there is one. -/
def readExponent (text : List Char) : Option (Option Int × List Char) :=
  match text with
  | c :: rest =>
    if c = 'e' ∨ c = 'E' then
      match rest with
      | '-' :: rest => readExponentDigits true rest
      | '+' :: rest => readExponentDigits false rest
      | rest => readExponentDigits false rest
    else some (none, text)
  | [] => some (none, [])

/-- The token of a number that is not written as an integer, or does not fit one. -/
def ofDecimal (negative : Bool) (digits : Nat) (exponent : Int) : Token :=
  match Binary64.ofDecimal negative digits exponent with
  | some bits => float bits
  | none => tooLarge

/-- The least integer that is kept exactly. -/
def leastInt : Int := -0x8000000000000000

/-- The greatest integer that is kept exactly. -/
def greatestInt : Int := 0xFFFFFFFFFFFFFFFF

/-- The token of a number written without point and exponent: an integer if it fits. -/
def ofInteger (negative : Bool) (digits : Nat) : Token :=
  let value : Int := if negative then -digits else digits
  if leastInt ≤ value ∧ value ≤ greatestInt then int value else ofDecimal negative digits 0

/-- Reads a number behind its sign. -/
def readUnsigned (negative : Bool) (text : List Char) : Option (Token × List Char) := do
  let (whole, text) ← readInteger text
  let (fraction, text) ← readFraction text
  let (exponent, text) ← readExponent text
  match fraction, exponent with
  | none, none => return (ofInteger negative (Text.digitsValue whole), text)
  | _, _ =>
    let places := fraction.getD []
    return (ofDecimal negative (Text.digitsValue (whole ++ places))
      (exponent.getD 0 - places.length), text)

/-- Reads a number. -/
def readNumber : List Char → Option (Token × List Char)
  | '-' :: rest => readUnsigned true rest
  | text => readUnsigned false text

/-! ### Texts -/

/-- Whether a character may stand between tokens. -/
def isBlank (c : Char) : Bool := c = ' ' ∨ c = '\t' ∨ c = '\n' ∨ c = '\r'

/-- Reads the token that starts with `c`. -/
def readFrom (c : Char) (rest : List Char) : Option (Token × List Char) :=
  match c, rest with
  | '[', rest => some (openArray, rest)
  | ']', rest => some (closeArray, rest)
  | '\x7b', rest => some (openObject, rest)
  | '\x7d', rest => some (closeObject, rest)
  | ',', rest => some (comma, rest)
  | ':', rest => some (colon, rest)
  | 'n', 'u' :: 'l' :: 'l' :: rest => some (null, rest)
  | 't', 'r' :: 'u' :: 'e' :: rest => some (bool true, rest)
  | 'f', 'a' :: 'l' :: 's' :: 'e' :: rest => some (bool false, rest)
  | '"', rest => (readString rest).map fun r => (string (String.ofList r.1), r.2)
  | c, rest => readNumber (c :: rest)

/-- The tokens of a text, followed by those of `ending`.  A NUL character between tokens ends
the text, whatever stands behind it.  `fuel` bounds the number of tokens and blanks, and the
length of the text is enough. -/
def scan (ending : List Token) : Nat → List Char → List Token
  | _, [] => ending
  | 0, _ :: _ => [bad]
  | fuel + 1, c :: rest =>
    if c = '\x00' then []
    else if isBlank c then scan ending fuel rest
    else
      match readFrom c rest with
      | some (token, rest) => token :: scan ending fuel rest
      | none => [bad]

/-- The tokens of a text, which breaks off at its end unless it is complete. -/
def ofText (text : List Char) (complete : Bool) : List Token :=
  scan (if complete then [] else [bad]) text.length text

end Token

end PluginHost.Json
