import PluginHost.Failure
import PluginHost.Text.Digits

/-!
# Versions

A version is written as one to three numbers separated by points, with an optional qualifier
behind a hyphen that does not count: "1", "1.2", "1.2.3-SNAPSHOT".  Versions are ordered by
their numbers from left to right.
-/

namespace PluginHost

/-- A major, a minor and a patch number. -/
structure Version where
  major : UInt16 := 0
  minor : UInt16 := 0
  patch : UInt16 := 0
  deriving DecidableEq, Repr, Inhabited

namespace Version

/-! ### Reading -/

/-- The parts of a text between its points. -/
def components : List Char → List (List Char)
  | [] => [[]]
  | c :: rest =>
    if c = '.' then [] :: components rest
    else
      match components rest with
      | [] => [[c]]
      | first :: others => (c :: first) :: others

/-- The number of a component: one to five digits, of a value below 2 ^ 16. -/
def component? (text : List Char) : Option UInt16 :=
  if text.isEmpty ∨ 5 < text.length ∨ ¬ text.all Text.isDigit then none
  else
    let value := Text.digitsValue text
    if value < UInt16.size then some (UInt16.ofNat value) else none

/-- The text before its first hyphen. -/
def withoutQualifier (text : List Char) : List Char := text.takeWhile (· ≠ '-')

/-- The version of its numbers, of which there are one to three; missing ones are zero. -/
def ofNumbers? : List UInt16 → Option Version
  | [major] => some { major }
  | [major, minor] => some { major, minor }
  | [major, minor, patch] => some { major, minor, patch }
  | _ => none

/-- The version that a text stands for. -/
def parse? (text : String) : Option Version :=
  (components (withoutQualifier text.toList)).mapM component? >>= ofNumbers?

/-- Whether a text stands for a version. -/
def isValid (text : String) : Bool := (parse? text).isSome

/-- The version that a text stands for; any other text is an invalid argument. -/
def parse (text : String) : Except Failure Version :=
  match parse? text with
  | some version => .ok version
  | none => .error (.invalidArgument s!"Invalid version: '{text}'")

/-! ### Writing -/

/-- The three numbers with points between them. -/
def print (v : Version) : String :=
  String.ofList (Nat.toDigits 10 v.major.toNat ++ '.' :: Nat.toDigits 10 v.minor.toNat ++
    '.' :: Nat.toDigits 10 v.patch.toNat)

instance : ToString Version := ⟨print⟩

/-! ### Order -/

/-- Whether one version comes before another: the first number in which they differ decides. -/
def before (v w : Version) : Bool :=
  if v.major ≠ w.major then v.major < w.major
  else if v.minor ≠ w.minor then v.minor < w.minor
  else v.patch < w.patch

instance : LT Version := ⟨fun v w => v.before w⟩

instance (v w : Version) : Decidable (v < w) := inferInstanceAs (Decidable (v.before w = true))

instance : LE Version := ⟨fun v w => ¬ w < v⟩

instance (v w : Version) : Decidable (v ≤ w) := inferInstanceAs (Decidable (¬ w < v))

/-- Whether a version is newer than another. -/
def isNewerThan (v w : Version) : Bool := w < v

end Version

end PluginHost
