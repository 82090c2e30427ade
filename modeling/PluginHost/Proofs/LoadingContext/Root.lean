import PluginHost.Proofs.FileSystem.Listing
import PluginHost.Proofs.LoadingContext

/-!
# One root under several spellings

Two roots that denote one directory give a plugin the same files: what a resource leads to is
settled by the directory (`LoadingContext.denotes_candidate_iff`), and a place of the plugin's own
lies below it.  The empty root stands for the current directory, but has no directory to stay in.
There a resource is found wherever its links lead, so that a plugin finds the same files as under
another spelling exactly if no link leads out of the directory
(`LoadingContext.findAlike_iff`).
-/

namespace PluginHost

namespace LoadingContext

variable {c d : LoadingContext} {home place : Location} {resource : Path}

/-- The directory of a plugin: what its root denotes, and the current directory if the root is
empty. -/
structure IsHome (c : LoadingContext) (home : Location) : Prop where
  isDirectory : c.files.entry? home = some .directory
  denoted : c.root.text = "" ∧ home = c.files.current ∨ c.files.Denotes c.root home

/-- Where a plugin looks for a resource. -/
def candidate (c : LoadingContext) (resource : Path) : Path := c.root / resource.normal

theorem candidate_of_empty (hroot : c.root.text = "") (hs : resource.StaysBelow) :
    c.candidate resource = resource.normal := by
  have hend : c.root.endsInName = false := by
    unfold Path.endsInName
    rw [hroot]
    rfl
  show Path.join _ _ = _
  rw [Path.join, hs.2.1, hend, hroot]
  simp

theorem text_normal_ne_empty (hs : resource.StaysBelow) : resource.normal.text ≠ "" :=
  Path.text_ne_empty_of_names hs.names_normal

theorem text_candidate_ne_empty (c : LoadingContext) (hs : resource.StaysBelow) :
    (c.candidate resource).text ≠ "" := by
  by_cases hroot : c.root.text = ""
  · rw [candidate_of_empty hroot hs]
    exact text_normal_ne_empty hs
  · intro he
    obtain ⟨stem, htext, -⟩ := Path.exists_toList_join hroot hs.2.1
    have hempty : (c.root / resource.normal).text = "" := he
    simp [hempty] at htext

/-- **What a resource leads to is a matter of the plugin's directory**, however its root is
written. -/
theorem denotes_candidate_iff (h : c.IsHome home) (hs : resource.StaysBelow) :
    c.files.Denotes (c.candidate resource) place ↔
      ∃ used, c.files.Leads (fun _ => True) used home resource.normal.parts.steps place := by
  have htext := c.text_candidate_ne_empty hs
  rcases h.denoted with ⟨hroot, rfl⟩ | ⟨hroot, usedHome, hw⟩
  · have hstart : c.files.start resource.normal = c.files.current := by
      rw [FileSystem.start, hs.2.1]
      rfl
    rw [FileSystem.Denotes, candidate_of_empty hroot hs, hstart]
    exact and_iff_right (text_normal_ne_empty hs)
  · have hstart := c.files.entry?_start c.root
    have htoHome := (FileSystem.leads_steps_iff hstart h.isDirectory).1 hw
    unfold candidate at htext ⊢
    rw [FileSystem.Denotes, FileSystem.start_join hroot hs.2.1 hs.names_normal,
      FileSystem.steps_join hroot hs.2.1 hs.names_normal, and_iff_right htext]
    constructor
    · rintro ⟨used, hall⟩
      have hsteps : resource.normal.parts.steps ≠ [] := by
        simp [Path.Parts.steps, hs.names_normal]
      obtain ⟨middle, usedTo, usedFrom, -, -, hto, hfrom⟩ := hall.split hsteps hstart
      obtain ⟨-, rfl⟩ := hto.unique htoHome
      exact ⟨usedFrom, hfrom⟩
    · rintro ⟨used, hfrom⟩
      exact ⟨usedHome + used, htoHome.append h.isDirectory hfrom⟩

theorem IsHome.of_denotes (h : c.IsHome home) (hroot : c.root.text ≠ "") :
    c.files.Denotes c.root home :=
  h.denoted.resolve_left fun hempty => hroot hempty.1

theorem confines_of_empty (hroot : c.root.text = "") {path : Path} :
    c.confines path = true ↔ ∃ place, c.files.canonical path = .ok place := by
  unfold confines
  cases c.files.canonical path <;> simp [hroot]

/-- **A resource is found** exactly if a file is reached that lies below the plugin's directory,
or that lies anywhere if the root is empty. -/
theorem findResource_eq_some_iff_of_home (h : c.IsHome home) {location : Path} :
    c.findResource resource = some location ↔ resource.StaysBelow ∧
      location = c.candidate resource ∧ ∃ place content, c.files.Reaches location place ∧
        c.files.entry? place = some (.file content) ∧ (c.root.text ≠ "" → home <+: place) := by
  by_cases hroot : c.root.text = ""
  · rw [findResource_eq_some_iff_resolves, confines_of_empty hroot, FileSystem.isFile_iff]
    refine and_congr_right fun _ => and_congr_right fun _ => ?_
    constructor
    · rintro ⟨⟨place, content, hresolve, hfile⟩, place', hcan⟩
      have hreach : c.files.Reaches location place' :=
        FileSystem.reaches_iff.2 ⟨FileSystem.size_le_of_resolve hresolve, hcan⟩
      obtain rfl : place' = place := Except.ok.inj (hreach.resolve.symm.trans hresolve)
      exact ⟨place', content, hreach, hfile, fun hne => absurd hroot hne⟩
    · rintro ⟨place, content, hreach, hfile, -⟩
      exact ⟨⟨place, content, hreach.resolve, hfile⟩, place, (FileSystem.reaches_iff.1 hreach).2⟩
  · have hhome := h.of_denotes hroot
    rw [findResource_eq_some_iff hroot]
    refine and_congr_right fun _ => and_congr_right fun _ => exists_congr fun place => ?_
    constructor
    · rintro ⟨hreach, home', content, hdenotes, hbelow, hfile⟩
      exact ⟨content, hreach, hfile, fun _ => hhome.unique hdenotes ▸ hbelow⟩
    · rintro ⟨content, hreach, hfile, hbelow⟩
      exact ⟨hreach, home, content, hhome, hbelow hroot, hfile⟩

/-! ### Two spellings -/

/-- A plugin finds a resource at a place. -/
def FindsAt (c : LoadingContext) (resource : Path) (place : Location) : Prop :=
  ∃ location, c.findResource resource = some location ∧ c.files.Denotes location place

/-- Two plugins find nothing, or the same file. -/
def FindAlike (c d : LoadingContext) (resource : Path) : Prop :=
  (c.findResource resource = none ∧ d.findResource resource = none) ∨
    ∃ place content, c.FindsAt resource place ∧ d.FindsAt resource place ∧
      c.files.entry? place = some (.file content)

/-- Whether what a resource leads to can be reached, if it leads anywhere: neither the path nor the
way is too long, and there are not too many links. -/
def InReach (c : LoadingContext) (resource : Path) : Prop :=
  ∀ place, c.files.Denotes (c.candidate resource) place →
    c.files.Reaches (c.candidate resource) place

/-- Whether a resource leads to a file outside a directory. -/
def LeadsOut (c : LoadingContext) (home : Location) (resource : Path) : Prop :=
  resource.StaysBelow ∧ ∃ place content, c.files.Denotes (c.candidate resource) place ∧
    c.files.entry? place = some (.file content) ∧ ¬ home <+: place

theorem findsAt_iff (h : c.IsHome home) :
    c.FindsAt resource place ↔ resource.StaysBelow ∧
      c.files.Reaches (c.candidate resource) place ∧
      (∃ content, c.files.entry? place = some (.file content)) ∧
      (c.root.text ≠ "" → home <+: place) := by
  unfold FindsAt
  constructor
  · rintro ⟨location, hfound, hdenotes⟩
    obtain ⟨hs, rfl, place', content, hreach, hfile, hbelow⟩ :=
      (findResource_eq_some_iff_of_home h).1 hfound
    obtain rfl := hdenotes.unique hreach.denotes
    exact ⟨hs, hreach, ⟨content, hfile⟩, hbelow⟩
  · rintro ⟨hs, hreach, ⟨content, hfile⟩, hbelow⟩
    exact ⟨_, (findResource_eq_some_iff_of_home h).2
      ⟨hs, rfl, place, content, hreach, hfile, hbelow⟩, hreach.denotes⟩

theorem exists_findsAt_iff (h : c.IsHome home) :
    (∃ place, c.FindsAt resource place) ↔ c.findResource resource ≠ none := by
  rw [Option.ne_none_iff_exists']
  constructor
  · rintro ⟨place, location, hfound, -⟩
    exact ⟨location, hfound⟩
  · rintro ⟨location, hfound⟩
    obtain ⟨-, -, place, -, hreach, -⟩ := (findResource_eq_some_iff_of_home h).1 hfound
    exact ⟨place, location, hfound, hreach.denotes⟩

theorem FindAlike.symm (hfiles : d.files = c.files) (h : FindAlike c d resource) :
    FindAlike d c resource := by
  rcases h with ⟨hnone, hnone'⟩ | ⟨place, content, hfound, hfound', hfile⟩
  · exact .inl ⟨hnone', hnone⟩
  · exact .inr ⟨place, content, hfound', hfound, hfiles ▸ hfile⟩

section SameDirectory

variable (hfiles : d.files = c.files) (hc : c.IsHome home) (hd : d.IsHome home)

include hfiles hc hd

theorem denotes_candidate_congr (hs : resource.StaysBelow) :
    d.files.Denotes (d.candidate resource) place ↔
      c.files.Denotes (c.candidate resource) place := by
  rw [denotes_candidate_iff hd hs, denotes_candidate_iff hc hs, hfiles]

theorem leadsOut_congr : d.LeadsOut home resource ↔ c.LeadsOut home resource := by
  refine and_congr_right fun hs => exists_congr fun place => exists_congr fun content => ?_
  rw [denotes_candidate_congr hfiles hc hd hs, hfiles]

/-- What one plugin finds another one of the same directory finds, too, if it can be reached and
is no more confined. -/
theorem FindsAt.of_home (hreach : d.InReach resource)
    (hlies : (d.root.text ≠ "" → c.root.text ≠ "") ∨ ¬ c.LeadsOut home resource)
    (h : c.FindsAt resource place) : d.FindsAt resource place := by
  obtain ⟨hs, hfound, ⟨content, hfile⟩, hbelow⟩ := (findsAt_iff hc).1 h
  have hdenotes := (denotes_candidate_congr hfiles hc hd hs).2 hfound.denotes
  refine (findsAt_iff hd).2 ⟨hs, hreach place hdenotes, ⟨content, hfiles ▸ hfile⟩, fun hroot => ?_⟩
  rcases hlies with hroots | hstays
  · exact hbelow (hroots hroot)
  · by_contra hout
    exact hstays ⟨hs, place, content, hfound.denotes, hfile, hout⟩

/-- Where only one of two roots is empty, the plugins differ in what leads out of the directory. -/
theorem not_leadsOut_of_findAlike (hreach : c.InReach resource) (hempty : c.root.text = "")
    (hroot : d.root.text ≠ "") (h : FindAlike c d resource) : ¬ c.LeadsOut home resource := by
  rintro ⟨hs, place, content, hdenotes, hfile, hout⟩
  have hfound : c.FindsAt resource place :=
    (findsAt_iff hc).2 ⟨hs, hreach place hdenotes, ⟨content, hfile⟩, fun hne => absurd hempty hne⟩
  rcases h with ⟨hnone, -⟩ | ⟨place', content', hfound', hother, -⟩
  · exact (exists_findsAt_iff hc).1 ⟨place, hfound⟩ hnone
  · obtain ⟨hs', hreach', -, hbelow⟩ := (findsAt_iff hd).1 hother
    have hsame := (denotes_candidate_congr hfiles hc hd hs').1 hreach'.denotes
    exact hout (hsame.unique hdenotes ▸ hbelow hroot)

/-- **The spelling of a root makes no difference, except that an empty one confines nothing.**
Whatever a plugin finds, another one of the same directory finds, provided it reaches it and, unless
its root is empty, it lies below the directory.  Within reach of both they find alike exactly if
neither or both of the roots are empty, or no file is led to outside the directory. -/
theorem findAlike_iff (resource : Path) :
    (∀ place, c.FindsAt resource place → (d.FindsAt resource place ↔
      d.files.Reaches (d.candidate resource) place ∧ (d.root.text ≠ "" → home <+: place))) ∧
    (c.InReach resource → d.InReach resource → (FindAlike c d resource ↔
      ((c.root.text = "" ↔ d.root.text = "") ∨ ¬ c.LeadsOut home resource))) := by
  constructor
  · intro place h
    obtain ⟨hs, -, hfile, -⟩ := (findsAt_iff hc).1 h
    rw [findsAt_iff hd, hfiles]
    simp [hs, hfile]
  · intro hreach hreach'
    constructor
    · intro h
      by_cases hempty : c.root.text = "" <;> by_cases hempty' : d.root.text = ""
      · exact .inl (iff_of_true hempty hempty')
      · exact .inr (not_leadsOut_of_findAlike hfiles hc hd hreach hempty hempty' h)
      · refine .inr fun hout => ?_
        have hout' := (leadsOut_congr hfiles hc hd).2 hout
        exact not_leadsOut_of_findAlike hfiles.symm hd hc hreach' hempty' hempty
          (h.symm hfiles) hout'
      · exact .inl (iff_of_false hempty hempty')
    · intro h
      by_cases hfound : ∃ place, c.FindsAt resource place
      · obtain ⟨place, hplace⟩ := hfound
        obtain ⟨-, -, ⟨content, hfile⟩, -⟩ := (findsAt_iff hc).1 hplace
        refine .inr ⟨place, content, hplace, hplace.of_home hfiles hc hd hreach' ?_, hfile⟩
        exact h.imp_left fun hroots hroot hempty => hroot (hroots.1 hempty)
      · -- what the other plugin found, this one would have found
        refine .inl ⟨not_not.1 fun hsome => hfound ((exists_findsAt_iff hc).2 hsome),
          not_not.1 fun hsome => hfound ?_⟩
        obtain ⟨place, hplace⟩ := (exists_findsAt_iff hd).2 hsome
        refine ⟨place, hplace.of_home hfiles.symm hd hc hreach ?_⟩
        rw [leadsOut_congr hfiles hc hd]
        exact h.imp_left fun hroots hroot hempty => hroot (hroots.2 hempty)

end SameDirectory

/-- The plugin with its root written in another way. -/
def withRoot (c : LoadingContext) (root : Path) : LoadingContext := { c with root }

/-- The plugin's file is found, too, if the root goes through the link to its own directory. -/
theorem findAlike_neighbour :
    FindAlike neighbour (neighbour.withRoot ⟨"p/s"⟩) ⟨"./f"⟩ := by
  have hp : neighbour.files.Reaches ⟨"p"⟩ ["p"] := FileSystem.reaches_iff.2 ⟨by decide, rfl⟩
  have hp' : neighbour.files.Reaches ⟨"p/s"⟩ ["p"] := FileSystem.reaches_iff.2 ⟨by decide, rfl⟩
  have hc : neighbour.IsHome ["p"] := ⟨rfl, .inr hp.denotes⟩
  have hd : (neighbour.withRoot ⟨"p/s"⟩).IsHome ["p"] := ⟨rfl, .inr hp'.denotes⟩
  have hfiles : (neighbour.withRoot ⟨"p/s"⟩).files = neighbour.files := rfl
  have hat : neighbour.candidate ⟨"./f"⟩ = ⟨"p/f"⟩ := by decide +kernel
  have hat' : (neighbour.withRoot ⟨"p/s"⟩).candidate ⟨"./f"⟩ = ⟨"p/s/f"⟩ := by decide +kernel
  have hf : neighbour.files.Reaches ⟨"p/f"⟩ ["p", "f"] :=
    FileSystem.reaches_iff.2 ⟨by decide, rfl⟩
  have hf' : neighbour.files.Reaches ⟨"p/s/f"⟩ ["p", "f"] :=
    FileSystem.reaches_iff.2 ⟨by decide, rfl⟩
  refine ((findAlike_iff hfiles hc hd ⟨"./f"⟩).2 ?_ ?_).2 (.inl ?_)
  · intro place h
    rw [hat] at h ⊢
    exact h.unique hf.denotes ▸ hf
  · intro place h
    rw [hat'] at h ⊢
    exact h.unique hf'.denotes ▸ hf'
  · exact iff_of_false (by decide) (by decide)

/-- A plugin in the current directory with a link to a file outside of it, and no name for its
root. -/
def unnamed : LoadingContext where
  artifactId := "p"
  root := ⟨""⟩
  files :=
    { entries := [(["p"], .directory), (["p", "o"], .link ⟨"/f"⟩), (["f"], .file .empty)]
      current := ["p"]
      tree := ⟨by decide, by decide, by decide⟩
      current_directory := Or.inr (by decide) }

/-- Without a name for its root the plugin finds the file outside, with the name "." it does not. -/
theorem findResource_unnamed :
    unnamed.IsHome ["p"] ∧ (unnamed.withRoot ⟨"."⟩).IsHome ["p"] ∧
      unnamed.FindsAt ⟨"o"⟩ ["f"] ∧
      (unnamed.withRoot ⟨"."⟩).findResource ⟨"o"⟩ = none ∧
      ¬ FindAlike unnamed (unnamed.withRoot ⟨"."⟩) ⟨"o"⟩ := by
  have hdot : unnamed.files.Reaches ⟨"."⟩ ["p"] := FileSystem.reaches_iff.2 ⟨by decide, rfl⟩
  have hfile : unnamed.files.Reaches ⟨"o"⟩ ["f"] := FileSystem.reaches_iff.2 ⟨by decide, rfl⟩
  have hfound : unnamed.findResource ⟨"o"⟩ = some ⟨"o"⟩ := by decide +kernel
  have hnone : (unnamed.withRoot ⟨"."⟩).findResource ⟨"o"⟩ = none := by decide +kernel
  have hhome : unnamed.IsHome ["p"] := ⟨rfl, .inl ⟨rfl, rfl⟩⟩
  have hhome' : (unnamed.withRoot ⟨"."⟩).IsHome ["p"] := ⟨rfl, .inr hdot.denotes⟩
  have hat : unnamed.FindsAt ⟨"o"⟩ ["f"] := ⟨⟨"o"⟩, hfound, hfile.denotes⟩
  refine ⟨hhome, hhome', hat, hnone, ?_⟩
  rintro (⟨hnothing, -⟩ | ⟨place, content, -, ⟨location, hlocation, -⟩, -⟩)
  · exact nomatch hfound.symm.trans hnothing
  · exact nomatch hnone.symm.trans hlocation

end LoadingContext

end PluginHost
