import PluginHost.Proofs.LoadingContext.Root
import PluginHost.Proofs.Path.Slashes

/-!
# A root with slashes behind it

A plugin ships a document if a file of its own is reached under the document's path, and exactly
then the document is found (`LoadingContext.Ships.findResource`,
`LoadingContext.exists_ships_of_findResource`).  Slashes behind its root make no difference
to what a plugin finds (`LoadingContext.findAlike_withSlashes`) until they make the path too long;
then it finds nothing (`LoadingContext.findResource_withSlashes_eq_none`).
-/

namespace PluginHost

namespace FileSystem

variable {fs : FileSystem} {p q : Path} {place home : Location}

theorem start_eq_of_rooted_eq (h : p.parts.rooted = q.parts.rooted) : fs.start p = fs.start q := by
  have habs : p.isAbsolute = q.isAbsolute := h
  rw [start, start, habs]

/-- Paths with the same parts reach the same places, unless one of them is too long. -/
theorem Reaches.of_parts_eq (hp : fs.Reaches p place) (h : p.parts = q.parts) (hq : q.text ≠ "")
    (hsize : q.text.utf8ByteSize ≤ pathLimit) : fs.Reaches q place := by
  obtain ⟨-, -, used, hu, hw⟩ := hp
  rw [start_eq_of_rooted_eq (congrArg Path.Parts.rooted h), h] at hw
  exact ⟨hq, hsize, used, hu, hw⟩

theorem Denotes.of_names_eq (hp : fs.Denotes p home) (hd : fs.entry? home = some .directory)
    (hq : q.text ≠ "") (hrooted : p.parts.rooted = q.parts.rooted)
    (hnames : p.parts.names = q.parts.names) : fs.Denotes q home := by
  obtain ⟨-, used, hw⟩ := hp
  have hway := (leads_steps_iff (entry?_start fs p) hd).1 hw
  rw [start_eq_of_rooted_eq hrooted, hnames] at hway
  exact ⟨hq, used, (leads_steps_iff (entry?_start fs q) hd).2 hway⟩

theorem read?_of_reaches {content : ByteArray} (h : fs.Reaches p place)
    (hfile : fs.entry? place = some (.file content)) : fs.read? p = some content := by
  unfold read? status
  rw [h.resolve]
  simp [bind, Except.bind, hfile]

end FileSystem

namespace LoadingContext

variable {c : LoadingContext} {home place : Location} {resource location : Path}
  {content : ByteArray}

/-! ### Documents of a plugin -/

/-- A plugin ships a document under a path: a file with the content is reached there, and lies in
the plugin's directory. -/
def Ships (c : LoadingContext) (resource : Path) (content : ByteArray) : Prop :=
  resource.StaysBelow ∧ ∃ home place, c.IsHome home ∧
    c.files.Reaches (c.candidate resource) place ∧ home <+: place ∧
    c.files.entry? place = some (.file content)

theorem exists_home_of_findResource (h : c.findResource resource = some location) :
    ∃ home, c.IsHome home := by
  by_cases hroot : c.root.text = ""
  · have hcurrent := FileSystem.entry?_of_isDirectoryOf c.files.current_directory
    exact ⟨c.files.current, hcurrent, .inl ⟨hroot, rfl⟩⟩
  · obtain ⟨home, -, -, hhome, hd, -⟩ := exists_below_of_findResource hroot h
    exact ⟨home, hd, .inr hhome⟩

/-- A document of the plugin is found, and is what is read there. -/
theorem Ships.findResource (h : c.Ships resource content) :
    c.findResource resource = some (c.candidate resource) ∧
      c.files.read? (c.candidate resource) = some content := by
  obtain ⟨hs, home, place, hhome, hreach, hbelow, hfile⟩ := h
  exact ⟨(findResource_eq_some_iff_of_home hhome).2
    ⟨hs, rfl, place, content, hreach, hfile, fun _ => hbelow⟩,
    FileSystem.read?_of_reaches hreach hfile⟩

/-- What is found is a document of the plugin, unless its root is empty and keeps nothing out. -/
theorem exists_ships_of_findResource (h : c.findResource resource = some location)
    (hstays : c.root.text = "" → ¬ c.LeadsOut c.files.current resource) :
    ∃ content, c.Ships resource content := by
  obtain ⟨home, hhome⟩ := exists_home_of_findResource h
  obtain ⟨hs, rfl, place, content, hreach, hfile, hbelow⟩ :=
    (findResource_eq_some_iff_of_home hhome).1 h
  refine ⟨content, hs, home, place, hhome, hreach, ?_, hfile⟩
  rcases hhome.denoted with ⟨hroot, rfl⟩ | ⟨hroot, -⟩
  · by_contra hout
    exact hstays hroot ⟨hs, place, content, hreach.denotes, hfile, hout⟩
  · exact hbelow hroot

/-! ### More slashes -/

/-- The plugin with so many slashes behind its root. -/
def withSlashes (c : LoadingContext) (slashes : Nat) : LoadingContext :=
  c.withRoot (c.root.withSlashes slashes)

/-- Whether the location of a resource, if it is found, can be so many bytes longer. -/
def HasRoom (c : LoadingContext) (resource : Path) (more : Nat) : Prop :=
  ∀ location, c.findResource resource = some location →
    location.text.utf8ByteSize + more ≤ FileSystem.pathLimit

/-- What is found has a path that is not too long. -/
theorem hasRoom_zero (c : LoadingContext) (resource : Path) : c.HasRoom resource 0 := by
  intro location hfound
  obtain ⟨-, -, hfile, -⟩ := findResource_eq_some_iff_resolves.1 hfound
  obtain ⟨place, content, hresolve, -⟩ := FileSystem.isFile_iff.1 hfile
  exact FileSystem.size_le_of_resolve hresolve

theorem isHome_withSlashes_iff (hroot : c.root.text ≠ "") (slashes : Nat) :
    (c.withSlashes slashes).IsHome home ↔ c.IsHome home := by
  have hmore := Path.text_withSlashes_ne_empty hroot slashes
  have hrooted := Path.rooted_withSlashes hroot slashes
  have hnames := c.root.names_withSlashes slashes
  constructor
  · intro h
    exact ⟨h.isDirectory,
      .inr ((h.of_denotes hmore).of_names_eq h.isDirectory hroot hrooted hnames)⟩
  · intro h
    exact ⟨h.isDirectory,
      .inr ((h.of_denotes hroot).of_names_eq h.isDirectory hmore hrooted.symm hnames.symm)⟩

section Slashes

variable (c) (hroot : c.root.endsInName = true) (slashes : Nat)

include hroot

theorem reaches_candidate_withSlashes_iff (hs : resource.StaysBelow) :
    c.files.Reaches ((c.withSlashes slashes).candidate resource) place ↔
      c.files.Reaches (c.candidate resource) place ∧
        (c.candidate resource).text.utf8ByteSize + (slashes - 1) ≤ FileSystem.pathLimit := by
  have hne := (Path.endsInName_iff.1 hroot).1
  have hparts : ((c.withSlashes slashes).candidate resource).parts = (c.candidate resource).parts :=
    Path.parts_join_withSlashes hne hs.2.1 hs.names_normal slashes
  have hsize : ((c.withSlashes slashes).candidate resource).text.utf8ByteSize =
      (c.candidate resource).text.utf8ByteSize + (slashes - 1) :=
    Path.size_join_withSlashes hroot hs.2.1 slashes
  constructor
  · intro h
    have hlimit := h.2.1
    rw [hsize] at hlimit
    exact ⟨h.of_parts_eq hparts (c.text_candidate_ne_empty hs) (Nat.le_of_add_right_le hlimit),
      hlimit⟩
  · rintro ⟨h, hlimit⟩
    exact h.of_parts_eq hparts.symm ((c.withSlashes slashes).text_candidate_ne_empty hs)
      (hsize ▸ hlimit)

/-- What is found behind more slashes is found without them, and had room for them. -/
theorem findResource_of_withSlashes
    (h : (c.withSlashes slashes).findResource resource = some location) :
    c.findResource resource = some (c.candidate resource) ∧
      (c.candidate resource).text.utf8ByteSize + (slashes - 1) ≤ FileSystem.pathLimit := by
  have hne := (Path.endsInName_iff.1 hroot).1
  obtain ⟨home, hmore⟩ := exists_home_of_findResource h
  have hhome := (isHome_withSlashes_iff hne slashes).1 hmore
  obtain ⟨hs, rfl, place, content, hreach, hfile, hbelow⟩ :=
    (findResource_eq_some_iff_of_home hmore).1 h
  obtain ⟨hreach, hlimit⟩ := (reaches_candidate_withSlashes_iff c hroot slashes hs).1 hreach
  exact ⟨(findResource_eq_some_iff_of_home hhome).2 ⟨hs, rfl, place, content, hreach, hfile,
    fun _ => hbelow (Path.text_withSlashes_ne_empty hne slashes)⟩, hlimit⟩

/-- What is found is found behind more slashes, too, at the same place, if there is room for
them. -/
theorem exists_reaches_withSlashes (h : c.HasRoom resource (slashes - 1))
    (hfound : c.findResource resource = some location) :
    ∃ more place content, (c.withSlashes slashes).findResource resource = some more ∧
      c.files.Reaches location place ∧ c.files.Reaches more place ∧
      c.files.entry? place = some (.file content) := by
  have hne := (Path.endsInName_iff.1 hroot).1
  obtain ⟨home, hhome⟩ := exists_home_of_findResource hfound
  have hmore := (isHome_withSlashes_iff hne slashes).2 hhome
  obtain ⟨hs, rfl, place, content, hreach, hfile, hbelow⟩ :=
    (findResource_eq_some_iff_of_home hhome).1 hfound
  have hreachMore :=
    (reaches_candidate_withSlashes_iff c hroot slashes hs).2 ⟨hreach, h _ hfound⟩
  exact ⟨_, place, content, (findResource_eq_some_iff_of_home hmore).2
    ⟨hs, rfl, place, content, hreachMore, hfile, fun _ => hbelow hne⟩, hreach, hreachMore, hfile⟩

/-- Behind too many slashes nothing is found, nor is what was not found without them. -/
theorem findResource_withSlashes_eq_none
    (h : c.findResource resource = none ∨ ¬ c.HasRoom resource (slashes - 1)) :
    (c.withSlashes slashes).findResource resource = none := by
  rw [Option.eq_none_iff_forall_ne_some]
  intro location hmore
  obtain ⟨hfound, hlimit⟩ := findResource_of_withSlashes c hroot slashes hmore
  rcases h with hnone | hroom
  · exact nomatch hfound.symm.trans hnone
  · refine hroom fun found hother => ?_
    obtain rfl := Option.some.inj (hfound.symm.trans hother)
    exact hlimit

/-- **Slashes behind its root make no difference to what a plugin finds**, as long as there is room
for them. -/
theorem findAlike_withSlashes (h : c.HasRoom resource (slashes - 1)) :
    FindAlike c (c.withSlashes slashes) resource := by
  cases hfound : c.findResource resource with
  | none => exact .inl ⟨hfound, findResource_withSlashes_eq_none c hroot slashes (.inl hfound)⟩
  | some location =>
    obtain ⟨more, place, content, hmore, hreach, hreachMore, hfile⟩ :=
      exists_reaches_withSlashes c hroot slashes h hfound
    exact .inr ⟨place, content, ⟨location, hfound, hreach.denotes⟩,
      ⟨more, hmore, hreachMore.denotes⟩, hfile⟩

end Slashes

end LoadingContext

end PluginHost
