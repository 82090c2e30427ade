/-!
# Paths

A path is a text of names separated by slashes; its text is what messages show.  `Path.parts`
is what the text means: whether it starts at the root directory, its names, and whether a slash
follows the last one.  Paths are compared by their parts, name by name, and `Path.Parts.normal`
removes the names "." and ".." without looking at any file.
-/

namespace PluginHost

/-- A path as it is written. -/
structure Path where
  text : String
  deriving DecidableEq, Repr, Inhabited

instance : ToString Path := ⟨Path.text⟩

namespace Path

/-- What the text of a path means. -/
structure Parts where
  /-- Whether the path starts at the root directory. -/
  rooted : Bool
  names : List String
  /-- Whether a slash follows the last name. -/
  trailing : Bool
  deriving DecidableEq, Repr

/-! ### Reading and writing -/

/-- The pieces of a text between its slashes. -/
def pieces : List Char → List (List Char)
  | [] => [[]]
  | c :: rest =>
    if c = '/' then [] :: pieces rest
    else
      match pieces rest with
      | [] => [[c]]
      | first :: others => (c :: first) :: others

/-- The names in a text: its pieces that are not empty. -/
def namesOf (text : List Char) : List String :=
  ((pieces text).filter fun piece => !piece.isEmpty).map String.ofList

/-- Whether a path starts at the root directory. -/
def isAbsolute (p : Path) : Bool := p.text.toList.head? = some '/'

/-- The parts of a path.  A row of slashes counts as one. -/
def parts (p : Path) : Parts :=
  let names := namesOf p.text.toList
  { rooted := p.isAbsolute
    names
    trailing := !names.isEmpty && decide (p.text.toList.getLast? = some '/') }

/-- Names with slashes between them. -/
def joinNames (names : List String) : String := "/".intercalate names

/-- The path of some parts, written with single slashes. -/
def Parts.path (q : Parts) : Path :=
  ⟨(if q.rooted then "/" else "") ++ joinNames q.names ++ if q.trailing then "/" else ""⟩

/-- The names to follow from the start of the path on; a slash at the end demands a directory,
as the name "." does. -/
def Parts.steps (q : Parts) : List String := q.names ++ if q.trailing then ["."] else []

/-! ### Comparison -/

/-- The names by which paths are compared: a slash at the end counts as an empty one. -/
def Parts.key (q : Parts) : List String := q.names ++ if q.trailing then [""] else []

/-- Whether two paths have the same parts. -/
def same (p q : Path) : Bool := p.parts = q.parts

/-- Whether a path comes before another: relative paths come before absolute ones, and among
paths of one sort the first name in which they differ decides. -/
def before (p q : Path) : Bool :=
  if p.parts.rooted = q.parts.rooted then decide (p.parts.key < q.parts.key)
  else q.parts.rooted

/-- The paths in ascending order. -/
def sort (paths : List Path) : List Path := paths.mergeSort fun p q => !q.before p

/-! ### Putting together and taking apart -/

/-- Whether the last part of a path is a name. -/
def endsInName (p : Path) : Bool :=
  match p.text.toList.getLast? with
  | none => false
  | some c => c ≠ '/'

/-- A path continued by another; an absolute one replaces it. -/
def join (p q : Path) : Path :=
  if q.isAbsolute then q
  else if p.endsInName then ⟨p.text ++ "/" ++ q.text⟩
  else ⟨p.text ++ q.text⟩

instance : Div Path := ⟨join⟩

/-- The last name of a path that is a directory's: slashes behind it do not count, and there
is none if there are only slashes. -/
def lastName (p : Path) : String := (p.parts.names.getLast?).getD ""

/-- A path without its last name and the slashes before it; the root directory stays what it is.
If a slash follows the last name, only the slashes at the end go away. -/
def parent (p : Path) : Path :=
  let above := (p.text.toList.reverse.dropWhile (· ≠ '/')).dropWhile (· = '/')
  if above.isEmpty ∧ p.isAbsolute then ⟨"/"⟩ else ⟨String.ofList above.reverse⟩

/-- The names before the last name of a path, and that name; none if a slash follows it. -/
def split? (p : Path) : Option (List String × String) :=
  if p.parts.trailing then none
  else p.parts.names.getLast?.map fun name => (p.parts.names.dropLast, name)

/-- The extension of a name: its last point and what follows, unless nothing precedes the
point.  The names "." and ".." have none. -/
def extensionOf (name : String) : String :=
  let reversed := name.toList.reverse
  let after := reversed.takeWhile (· ≠ '.')
  match reversed.drop after.length with
  | [] => ""
  | _ :: stem =>
    if stem.isEmpty ∨ name = ".." then "" else String.ofList ('.' :: after.reverse)

/-! ### Normal form -/

/-- Follows one name without looking at files.  A name ".." takes the last name back; it stays
if there is none but another "..", and goes away at the root directory. -/
def Parts.follow (q : Parts) (name : String) : Parts :=
  if name = "." then { q with trailing := !q.names.isEmpty }
  else if name = ".." then
    match q.names.getLast? with
    | none => if q.rooted then q else { q with names := [".."] , trailing := false }
    | some last =>
      if last = ".." then { q with names := q.names ++ [".."], trailing := false }
      else { q with names := q.names.dropLast, trailing := decide (1 < q.names.length) }
  else { q with names := q.names ++ [name], trailing := false }

/-- The parts without the names "." and without a name followed by "..".  A slash at the end
stays unless it follows ".."; a relative path of which nothing is left is ".". -/
def Parts.normal (q : Parts) : Parts :=
  let followed := q.steps.foldl Parts.follow { rooted := q.rooted, names := [], trailing := false }
  if followed.names.isEmpty then
    if followed.rooted then followed else { followed with names := ["."] , trailing := false }
  else if followed.names.getLast? = some ".." then { followed with trailing := false }
  else followed

/-- The normal form of a path; the empty path is its own. -/
def normal (p : Path) : Path := if p.text = "" then p else p.parts.normal.path

end Path

end PluginHost
