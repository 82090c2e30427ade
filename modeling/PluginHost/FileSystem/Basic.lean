import PluginHost.Path

/-!
# File systems

A file system lists what there is at each place below the root directory: directories, files
and symbolic links.  Places are rows of names.  What is listed is always a tree, so every
change is one that keeps it a tree.
-/

namespace PluginHost

/-- A place in the tree: the names on the way from the root directory. -/
abbrev Location := List String

/-- The length, in bytes, of the path from the root directory to a place. -/
def Location.pathLength (place : Location) : Nat :=
  place.foldr (fun name length => name.utf8ByteSize + 1 + length) 0

/-- Contents are compared as byte arrays are by themselves, whatever else an import may offer. -/
instance decidableEqContent : DecidableEq ByteArray := ByteArray.instDecidableEq

/-- What there is at a place. -/
inductive Entry where
  | directory
  | file (content : ByteArray)
  | link (target : Path)
  deriving DecidableEq

/-- The longest name, in bytes. -/
def nameLimit : Nat := 255

/-- Whether a text can name an entry of a directory. -/
def IsEntryName (name : String) : Prop :=
  name ≠ "" ∧ name ≠ "." ∧ name ≠ ".." ∧ '/' ∉ name.toList ∧ name.utf8ByteSize ≤ nameLimit

instance (name : String) : Decidable (IsEntryName name) :=
  inferInstanceAs (Decidable (_ ∧ _ ∧ _ ∧ _ ∧ _))

/-- Whether a place is a directory of a listing.  The root directory always is one. -/
def IsDirectoryOf (entries : List (Location × Entry)) (place : Location) : Prop :=
  place = [] ∨ (place, Entry.directory) ∈ entries

instance (entries : List (Location × Entry)) (place : Location) :
    Decidable (IsDirectoryOf entries place) :=
  inferInstanceAs (Decidable (_ ∨ _))

/-- Whether a listing is a tree: one entry a place, under a proper name in a directory. -/
structure IsTree (entries : List (Location × Entry)) : Prop where
  distinct : (entries.map (·.1)).Nodup
  named : ∀ e ∈ entries, e.1 ≠ [] ∧ ∀ name ∈ e.1, IsEntryName name
  parented : ∀ e ∈ entries, IsDirectoryOf entries e.1.dropLast

/-- A tree of entries with a current directory in it.  The order of the listing is the order in
which a directory lists its own entries. -/
structure FileSystem where
  entries : List (Location × Entry)
  current : Location
  tree : IsTree entries
  current_directory : IsDirectoryOf entries current

namespace FileSystem

/-- The file system with nothing but the root directory. -/
def empty : FileSystem where
  entries := []
  current := []
  tree := ⟨List.Pairwise.nil, by simp, by simp⟩
  current_directory := Or.inl rfl

instance : Inhabited FileSystem := ⟨empty⟩

/-- What there is at a place. -/
def entry? (fs : FileSystem) (place : Location) : Option Entry :=
  if place = [] then some .directory else fs.entries.lookup place

/-- The names in a directory, each with what it names. -/
def entriesIn (fs : FileSystem) (place : Location) : List (String × Entry) :=
  fs.entries.filterMap fun e =>
    if e.1.dropLast = place then e.1.getLast?.map fun name => (name, e.2) else none

/-- The ways from a directory to the places below it, however deep, each with what is there.
Links are not followed. -/
def entriesBelow (fs : FileSystem) (place : Location) : List (List String × Entry) :=
  fs.entries.filterMap fun e =>
    if place.isPrefixOf e.1 ∧ e.1 ≠ place then some (e.1.drop place.length, e.2) else none

/-! ### Changes -/

theorem isTree_append {entries : List (Location × Entry)} (h : IsTree entries)
    {place : Location} {name : String} {entry : Entry} (hp : IsDirectoryOf entries place)
    (hn : ∀ n ∈ place ++ [name], IsEntryName n) (hf : place ++ [name] ∉ entries.map (·.1)) :
    IsTree (entries ++ [(place ++ [name], entry)]) where
  distinct := by
    rw [List.map_append, List.nodup_append]
    refine ⟨h.distinct, by simp, fun a ha b hb => ?_⟩
    rintro rfl
    simp only [List.map_cons, List.map_nil, List.mem_singleton] at hb
    exact hf (hb ▸ ha)
  named := by
    intro e he
    rcases List.mem_append.1 he with he | he
    · exact h.named e he
    · obtain rfl := List.mem_singleton.1 he
      exact ⟨by simp, hn⟩
  parented := by
    intro e he
    have lift : ∀ q, IsDirectoryOf entries q →
        IsDirectoryOf (entries ++ [(place ++ [name], entry)]) q :=
      fun q hq => hq.imp_right (List.mem_append_left _)
    rcases List.mem_append.1 he with he | he
    · exact lift _ (h.parented e he)
    · obtain rfl := List.mem_singleton.1 he
      simpa using lift _ hp

/-- The file system with a new entry in a directory; none if the place is no directory, or the
name is taken or not one of an entry. -/
def add? (fs : FileSystem) (place : Location) (name : String) (entry : Entry) :
    Option FileSystem :=
  if h : IsDirectoryOf fs.entries place ∧ (∀ n ∈ place ++ [name], IsEntryName n) ∧
      place ++ [name] ∉ fs.entries.map (·.1) then
    some
      { entries := fs.entries ++ [(place ++ [name], entry)]
        current := fs.current
        tree := isTree_append fs.tree h.1 h.2.1 h.2.2
        current_directory := fs.current_directory.imp_right (List.mem_append_left _) }
  else none

/-- The file system with another current directory, if the place is a directory. -/
def changeTo (fs : FileSystem) (place : Location) : FileSystem :=
  if h : IsDirectoryOf fs.entries place then { fs with current := place, current_directory := h }
  else fs

/-- A file of a listing with other content. -/
def refill (place : Location) (content : ByteArray) (e : Location × Entry) : Location × Entry :=
  match e with
  | (p, .file old) => (p, .file (if p = place then content else old))
  | e => e

theorem fst_refill (place : Location) (content : ByteArray) (e : Location × Entry) :
    (refill place content e).1 = e.1 := by
  unfold refill; split <;> rfl

theorem isDirectoryOf_refill {entries : List (Location × Entry)} {place q : Location}
    {content : ByteArray} (h : IsDirectoryOf entries q) :
    IsDirectoryOf (entries.map (refill place content)) q :=
  h.imp_right fun h => List.mem_map.2 ⟨_, h, rfl⟩

/-- The file system in which the file at a place has other content. -/
def replace (fs : FileSystem) (place : Location) (content : ByteArray) : FileSystem where
  entries := fs.entries.map (refill place content)
  current := fs.current
  tree :=
    { distinct := by
        rw [List.map_map]
        simpa [Function.comp_def, fst_refill] using fs.tree.distinct
      named := by
        intro e he
        obtain ⟨d, hd, rfl⟩ := List.mem_map.1 he
        rw [fst_refill]
        exact fs.tree.named d hd
      parented := by
        intro e he
        obtain ⟨d, hd, rfl⟩ := List.mem_map.1 he
        rw [fst_refill]
        exact isDirectoryOf_refill (fs.tree.parented d hd) }
  current_directory := isDirectoryOf_refill fs.current_directory

end FileSystem

end PluginHost
