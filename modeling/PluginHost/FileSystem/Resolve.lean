import PluginHost.FileSystem.Basic

/-!
# Resolving paths

How a path leads to a place: names are followed one by one, ".." leads to the parent of the
directory reached, and a symbolic link is replaced by its target, up to `linkLimit` times.  The
place found lies behind all links.  `FileSystem.canonical` is the same for one who writes the
place down: then no place on the way may be too far from the root directory for a path.
Reading, listing and writing are defined on top of it.
-/

namespace PluginHost

/-- Why a path leads nowhere. -/
inductive ResolveError where
  | missing
  | notDirectory
  | tooManyLinks
  | tooLong
  deriving DecidableEq, Repr

/-- The wording of the operating system. -/
def ResolveError.message : ResolveError → String
  | missing => "No such file or directory"
  | notDirectory => "Not a directory"
  | tooManyLinks => "Too many levels of symbolic links"
  | tooLong => "File name too long"

namespace FileSystem

/-- How many links a path may lead through. -/
def linkLimit : Nat := 40

/-- The longest path, in bytes. -/
def pathLimit : Nat := 4095

/-- How a path is followed. -/
structure Mode where
  /-- The places that may be passed. -/
  passable : Location → Bool := fun _ => true
  /-- Whether the last name may be one that names nothing yet. -/
  creating : Bool := false

/-- A place that was reached, and how many more links may be followed from there. -/
structure Reached where
  place : Location
  links : Nat

/-- Follows names from a place; at a link, `followLink` goes on from the place where its target
starts with the names of the target and those that are left.  Up to the next link, `links` more
may be followed. -/
def walk (fs : FileSystem) (mode : Mode)
    (followLink : Location → List String → Except ResolveError Reached) (links : Nat) :
    Location → List String → Except ResolveError Reached
  | place, [] => .ok { place, links }
  | place, name :: rest =>
    if name = "." then walk fs mode followLink links place rest
    else if name = ".." then walk fs mode followLink links place.dropLast rest
    else if nameLimit < name.utf8ByteSize ∨ !mode.passable (place ++ [name]) then .error .tooLong
    else
      match fs.entry? (place ++ [name]) with
      | none =>
        if mode.creating && rest.isEmpty then .ok { place := place ++ [name], links }
        else .error .missing
      | some .directory => walk fs mode followLink links (place ++ [name]) rest
      | some (.file _) =>
        if rest.isEmpty then .ok { place := place ++ [name], links } else .error .notDirectory
      | some (.link target) =>
        followLink (if target.isAbsolute then [] else place) (target.parts.steps ++ rest)

/-- Follows names from a place through at most so many links. -/
def follow (fs : FileSystem) (mode : Mode) :
    Nat → Location → List String → Except ResolveError Reached
  | 0 => fs.walk mode (fun _ _ => .error .tooManyLinks) 0
  | links + 1 => fs.walk mode (fs.follow mode links) (links + 1)

/-- The directory from which a path is followed. -/
def start (fs : FileSystem) (path : Path) : Location := if path.isAbsolute then [] else fs.current

/-- The place that a path leads to, behind all links. -/
def resolve (fs : FileSystem) (path : Path) : Except ResolveError Location :=
  if path.text = "" then .error .missing
  else if pathLimit < path.text.utf8ByteSize then .error .tooLong
  else (fs.follow {} linkLimit (fs.start path) path.parts.steps).map Reached.place

/-- The place that a path leads to, if every place on the way can be written down: from the root
directory on, its path is short enough to be followed. -/
def canonical (fs : FileSystem) (path : Path) : Except ResolveError Location :=
  if path.text = "" then .error .missing
  else
    (fs.follow { passable := fun place => decide (place.pathLength ≤ pathLimit) } linkLimit
      (fs.start path) path.parts.steps).map Reached.place

theorem walk_of_walk {fs : FileSystem} {passable : Location → Bool} {links : Nat}
    {f g : Location → List String → Except ResolveError Reached}
    (hfg : ∀ place names reached, f place names = .ok reached → g place names = .ok reached)
    {place : Location} {names : List String} {reached : Reached}
    (h : fs.walk { passable } f links place names = .ok reached) :
    fs.walk {} g links place names = .ok reached := by
  induction names generalizing place with
  | nil => exact h
  | cons name rest ih =>
    rw [walk] at h ⊢
    split at h
    · next hd => rw [if_pos hd]; exact ih h
    · next hd =>
      rw [if_neg hd]
      split at h
      · next hp => rw [if_pos hp]; exact ih h
      · next hp =>
        rw [if_neg hp]
        split at h
        · cases h
        · next hl =>
          have hl' : ¬ (nameLimit < name.utf8ByteSize ∨ (!true) = true) := by
            rintro (hl' | hl')
            · exact hl (Or.inl hl')
            · cases hl'
          rw [if_neg hl']
          cases he : fs.entry? (place ++ [name]) with
          | none => rw [he] at h; cases h
          | some entry =>
            rw [he] at h
            cases entry with
            | directory => exact ih h
            | file _ => exact h
            | link target => exact hfg _ _ _ h

theorem follow_of_follow {fs : FileSystem} {passable : Location → Bool} {links : Nat}
    {place : Location} {names : List String} {reached : Reached}
    (h : fs.follow { passable } links place names = .ok reached) :
    fs.follow {} links place names = .ok reached := by
  induction links generalizing place names reached with
  | zero => exact walk_of_walk (fun _ _ _ h => h) h
  | succ links ih => exact walk_of_walk (fun _ _ _ h => ih h) h

/-- A path that can be followed leads to its canonical place, if it has one. -/
theorem resolve_of_canonical {fs : FileSystem} {path : Path} {place : Location}
    (hl : path.text.utf8ByteSize ≤ pathLimit) (h : fs.canonical path = .ok place) :
    fs.resolve path = .ok place := by
  unfold canonical at h
  unfold resolve
  split at h
  · cases h
  · next he =>
    rw [if_neg he, if_neg (Nat.not_lt.2 hl)]
    cases hf : fs.follow { passable := fun place => decide (place.pathLength ≤ pathLimit) }
        linkLimit (fs.start path) path.parts.steps with
    | error e => rw [hf] at h; cases h
    | ok reached =>
      rw [hf] at h
      rw [follow_of_follow hf]
      exact h

/-- What a path leads to. -/
def status (fs : FileSystem) (path : Path) : Except ResolveError Entry := do
  match fs.entry? (← fs.resolve path) with
  | some entry => .ok entry
  | none => .error .missing

/-- Whether a path leads to a file. -/
def isFile (fs : FileSystem) (path : Path) : Bool :=
  match fs.status path with
  | .ok (.file _) => true
  | _ => false

/-- Whether a path leads to a directory. -/
def isDirectory (fs : FileSystem) (path : Path) : Bool :=
  match fs.status path with
  | .ok .directory => true
  | _ => false

/-- The content that is read when a path is opened: that of a file, and nothing for a
directory. -/
def read? (fs : FileSystem) (path : Path) : Option ByteArray :=
  match fs.status path with
  | .ok (.file content) => some content
  | .ok .directory => some ByteArray.empty
  | _ => none

/-- The directory that a path leads to. -/
def directory (fs : FileSystem) (path : Path) : Except ResolveError Location := do
  let place ← fs.resolve path
  match fs.entry? place with
  | some .directory => .ok place
  | _ => .error .notDirectory

/-- An entry as a listing shows it: a path to it, and what it is itself. -/
structure Listed where
  path : Path
  entry : Entry

/-- The entries of a directory, at paths that continue its own, in listing order. -/
def list (fs : FileSystem) (path : Path) : Except ResolveError (List Listed) := do
  return (fs.entriesIn (← fs.directory path)).map fun (name, entry) =>
    { path := path / ⟨name⟩, entry }

/-- Everything below a directory, at paths that continue its own, in listing order. -/
def listBelow (fs : FileSystem) (path : Path) : Except ResolveError (List Listed) := do
  return (fs.entriesBelow (← fs.directory path)).map fun (way, entry) =>
    { path := way.foldl (fun p name => p / ⟨name⟩) path, entry }

/-- What a listed entry leads to.  Only a link has to be followed, so the path of anything else
may be too long for that. -/
def statusOf (fs : FileSystem) (e : Listed) : Except ResolveError Entry :=
  match e.entry with
  | .link _ => fs.status e.path
  | entry => .ok entry

/-! ### Writing -/

/-- How many directories can be made at once. -/
def makeLimit : Nat := 1000

/-- Makes the directories of a way from a place on, as far as they are missing; none if something
else is in the way, too many are missing, or the way leads through too many links. -/
def makeWay? (fs : FileSystem) (start : Reached) : List String → Option FileSystem
  | [] => some fs
  | name :: rest =>
    match fs.follow {} start.links start.place [name] with
    | .ok next => if IsDirectoryOf fs.entries next.place then makeWay? fs next rest else none
    | .error .missing =>
      if makeLimit < (name :: rest).countP (fun n => n ≠ "." ∧ n ≠ "..") then none
      else do
        makeWay? (← fs.add? start.place name .directory)
          { start with place := start.place ++ [name] } rest
    | .error _ => none

/-- The file system with the directory of a path and those above it. -/
def makeDirectory? (fs : FileSystem) (path : Path) : Option FileSystem :=
  if path.text = "" ∨ pathLimit < path.text.utf8ByteSize then none
  else fs.makeWay? { place := fs.start path, links := linkLimit } path.parts.names

/-- The file system with the directory in which a path names something, and those above it. -/
def makeParents? (fs : FileSystem) (path : Path) : Option FileSystem :=
  if path.parent.text = "" then some fs else fs.makeDirectory? path.parent

/-- The file system with a content at a place where there is a file or nothing yet. -/
def put? (fs : FileSystem) (place : Location) (content : ByteArray) : Option FileSystem :=
  match fs.entry? place, place.getLast? with
  | some (.file _), _ => some (fs.replace place content)
  | none, some name => fs.add? place.dropLast name (.file content)
  | _, _ => none

/-- The file system with a content written to a path in a directory that is there.  A link is
followed, and there need not be anything yet at the place that it leads to. -/
def writeFile? (fs : FileSystem) (path : Path) (content : ByteArray) : Option FileSystem := do
  guard (path.text.utf8ByteSize ≤ pathLimit)
  let reached ←
    (fs.follow { creating := true } linkLimit (fs.start path) path.parts.steps).toOption
  fs.put? reached.place content

/-- The file system with a new link at a path in a directory that is there. -/
def makeLink? (fs : FileSystem) (path target : Path) : Option FileSystem := do
  guard (path.text.utf8ByteSize ≤ pathLimit)
  guard (target.text ≠ "" ∧ target.text.utf8ByteSize ≤ pathLimit)
  let (way, name) ← path.split?
  let reached ← (fs.follow {} linkLimit (fs.start path) way).toOption
  fs.add? reached.place name (.link target)

end FileSystem

end PluginHost
