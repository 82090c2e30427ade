import PluginHost.LoadingContext
import PluginHost.Proofs.FileSystem.Listing

/-!
# File systems that list in another order

Two file systems are alike if they have the same entries, and their directories list them in
whatever order (`FileSystem.Alike`).  Every path leads to the same in both: the order shows in
listings alone, which are permutations of each other (`FileSystem.Alike.list_perm`,
`FileSystem.Alike.listBelow_perm`).
-/

namespace PluginHost

namespace FileSystem

/-- Whether two file systems differ at most in the order in which directories list their
entries. -/
structure Alike (fs fs' : FileSystem) : Prop where
  entries : fs.entries.Perm fs'.entries
  current : fs.current = fs'.current

variable {fs fs' : FileSystem}

namespace Alike

theorem symm (h : fs.Alike fs') : fs'.Alike fs := ⟨h.entries.symm, h.current.symm⟩

/-! ### Places -/

theorem entry?_of_some (h : fs.Alike fs') {place : Location} {entry : Entry}
    (he : fs.entry? place = some entry) : fs'.entry? place = some entry := by
  by_cases hp : place = []
  · subst hp
    exact he
  · exact entry?_of_mem (h.entries.mem_iff.1 (mem_of_entry?_eq hp he))

theorem entry?_eq (h : fs.Alike fs') : fs.entry? = fs'.entry? := by
  funext place
  cases he : fs.entry? place with
  | some entry => exact (h.entry?_of_some he).symm
  | none =>
    cases he' : fs'.entry? place with
    | none => rfl
    | some entry => exact nomatch he.symm.trans (h.symm.entry?_of_some he')

/-! ### Paths -/

theorem walk_eq (h : fs.Alike fs') {mode : Mode} {links : Nat}
    {followLink : Location → List String → Except ResolveError Reached} (place : Location)
    (names : List String) :
    fs.walk mode followLink links place names = fs'.walk mode followLink links place names := by
  induction names generalizing place with
  | nil => rfl
  | cons name rest ih =>
    unfold walk
    simp only [h.entry?_eq, ih]

theorem follow_eq (h : fs.Alike fs') (mode : Mode) (links : Nat) :
    fs.follow mode links = fs'.follow mode links := by
  induction links with
  | zero =>
    funext place names
    exact h.walk_eq place names
  | succ links ih =>
    funext place names
    unfold follow
    rw [ih]
    exact h.walk_eq place names

theorem start_eq (h : fs.Alike fs') (path : Path) : fs.start path = fs'.start path := by
  unfold start
  rw [h.current]

theorem resolve_eq (h : fs.Alike fs') (path : Path) : fs.resolve path = fs'.resolve path := by
  unfold resolve
  rw [h.follow_eq, h.start_eq]

theorem canonical_eq (h : fs.Alike fs') (path : Path) : fs.canonical path = fs'.canonical path := by
  unfold canonical
  rw [h.follow_eq, h.start_eq]

/-- **A path leads to the same in file systems that are alike.** -/
theorem status_eq (h : fs.Alike fs') (path : Path) : fs.status path = fs'.status path := by
  unfold status
  rw [h.resolve_eq, h.entry?_eq]

theorem read?_eq (h : fs.Alike fs') (path : Path) : fs.read? path = fs'.read? path := by
  unfold read?
  rw [h.status_eq]

theorem statusOf_eq (h : fs.Alike fs') (e : Listed) : fs.statusOf e = fs'.statusOf e := by
  unfold statusOf
  rw [h.status_eq]

theorem directory_eq (h : fs.Alike fs') (path : Path) :
    fs.directory path = fs'.directory path := by
  unfold directory
  rw [h.resolve_eq, h.entry?_eq]

/-! ### Listings -/

variable {path : Path} {entries : List Listed}

theorem list_perm (h : fs.Alike fs') (hl : fs.list path = .ok entries) :
    ∃ entries', fs'.list path = .ok entries' ∧ entries.Perm entries' := by
  obtain ⟨place, hd, rfl⟩ := list_eq_ok_iff.1 hl
  refine ⟨_, list_eq_ok_iff.2 ⟨place, (h.directory_eq path).symm.trans hd, rfl⟩, ?_⟩
  exact (h.entries.filterMap _).map _

theorem listBelow_perm (h : fs.Alike fs') (hl : fs.listBelow path = .ok entries) :
    ∃ entries', fs'.listBelow path = .ok entries' ∧ entries.Perm entries' := by
  obtain ⟨place, hd, rfl⟩ := listBelow_eq_ok_iff.1 hl
  refine ⟨_, listBelow_eq_ok_iff.2 ⟨place, (h.directory_eq path).symm.trans hd, rfl⟩, ?_⟩
  exact (h.entries.filterMap _).map _

end Alike

end FileSystem

/-- Whether two plugins' files differ at most in the order in which directories list them. -/
structure LoadingContext.Alike (c c' : LoadingContext) : Prop where
  artifactId : c.artifactId = c'.artifactId
  root : c.root = c'.root
  files : c.files.Alike c'.files

theorem LoadingContext.Alike.findResource_eq {c c' : LoadingContext} (h : c.Alike c') :
    c.findResource = c'.findResource := by
  funext resource
  unfold findResource confines FileSystem.isFile
  simp only [h.root, h.files.status_eq, h.files.canonical_eq]

end PluginHost
