import Mathlib.Data.List.Basic
import PluginHost.Proofs.FileSystem.Listing

/-!
# What paths name

A path names a place if its last name is the last one of the place and the names before it lead to
the directory above (`FileSystem.Names`).  So one file is named by many paths: through links, over
"." and "..", from the root directory or from the current one.  A directory lists exactly what
there is in it or below it (`FileSystem.mem_entriesIn_iff`, `FileSystem.mem_entriesBelow_iff`),
and each path of a listing names the place of its entry (`FileSystem.names_descend`).
-/

namespace PluginHost

namespace FileSystem

variable {fs : FileSystem} {place home : Location} {path p q : Path} {entry : Entry}

/-- A path names a place: the names before the last one lead to the directory above. -/
def Names (fs : FileSystem) (path : Path) (place : Location) : Prop :=
  ∃ before name above used, path.parts.names = before ++ [name] ∧
    fs.entry? above = some .directory ∧
    fs.Leads (fun _ => True) used (fs.start path) before above ∧ place = above ++ [name]

theorem Names.unique {place' : Location} (h : fs.Names path place) (h' : fs.Names path place') :
    place = place' := by
  obtain ⟨before, name, above, used, hnames, -, hw, rfl⟩ := h
  obtain ⟨before', name', above', used', hnames', -, hw', rfl⟩ := h'
  obtain ⟨rfl, hlast⟩ := List.append_inj' (hnames.symm.trans hnames') rfl
  obtain ⟨-, rfl⟩ := hw.unique hw'
  rw [hlast]

theorem Names.of_parts_eq (h : p.parts = q.parts) (hp : fs.Names p place) : fs.Names q place := by
  have habs : p.isAbsolute = q.isAbsolute := congrArg Path.Parts.rooted h
  unfold Names start at hp ⊢
  rwa [h, habs] at hp

/-! ### Directories and what they list -/

theorem entry?_eq_some_iff (hne : place ≠ []) :
    fs.entry? place = some entry ↔ (place, entry) ∈ fs.entries :=
  ⟨mem_of_entry?_eq hne, entry?_of_mem⟩

theorem isName_below {way : List String} (hne : way ≠ [])
    (h : fs.entry? (home ++ way) = some entry) : ∀ n ∈ way, Path.IsName n :=
  isName_of_way (List.mem_map.2 ⟨_, (entry?_eq_some_iff (by simp [hne])).1 h, rfl⟩)

/-- A directory lists what there is in it. -/
theorem mem_entriesIn_iff {name : String} :
    (name, entry) ∈ fs.entriesIn home ↔ fs.entry? (home ++ [name]) = some entry := by
  rw [entry?_eq_some_iff (by simp)]
  simp only [entriesIn, List.mem_filterMap]
  constructor
  · rintro ⟨e, he, hsome⟩
    by_cases hdrop : e.1.dropLast = home
    · rw [if_pos hdrop] at hsome
      obtain ⟨last, hlast, heq⟩ := Option.map_eq_some_iff.1 hsome
      obtain ⟨above, habove⟩ := List.getLast?_eq_some_iff.1 hlast
      obtain ⟨rfl, rfl⟩ := Prod.mk.inj heq
      have hplace : home ++ [last] = e.1 := by rw [← hdrop, habove, List.dropLast_concat]
      rw [hplace]
      exact he
    · rw [if_neg hdrop] at hsome
      cases hsome
  · intro h
    exact ⟨_, h, by simp⟩

/-- What is listed below a directory is what there is there, however deep. -/
theorem mem_entriesBelow_iff {way : List String} :
    (way, entry) ∈ fs.entriesBelow home ↔ way ≠ [] ∧ fs.entry? (home ++ way) = some entry := by
  constructor
  · intro h
    have hne := ne_nil_of_mem_entriesBelow h
    refine ⟨hne, (entry?_eq_some_iff (by simp [hne])).2 ?_⟩
    obtain ⟨e, he, hsome⟩ := List.mem_filterMap.1 h
    split at hsome
    · next hbelow =>
      obtain ⟨rfl, rfl⟩ := Prod.mk.inj (Option.some.inj hsome)
      have hplace : home ++ e.1.drop home.length = e.1 :=
        List.prefix_iff_eq_append.1 (List.isPrefixOf_iff_prefix.1 hbelow.1)
      rw [hplace]
      exact he
    · cases hsome
  · rintro ⟨hne, h⟩
    refine List.mem_filterMap.2 ⟨_, (entry?_eq_some_iff (by simp [hne])).1 h, ?_⟩
    simp [hne]

theorem denotes_of_resolve (h : fs.resolve path = .ok place) : fs.Denotes path place := by
  unfold resolve at h
  split at h
  · cases h
  · next hne =>
    split at h
    · cases h
    · cases hf : fs.follow {} linkLimit (fs.start path) path.parts.steps with
      | error e => rw [hf] at h; cases h
      | ok reached =>
        rw [hf] at h
        obtain rfl := Except.ok.inj h
        obtain ⟨used, -, hw⟩ := @leads_of_follow fs (fun _ => True) _ _ _ _ _ hf
        exact ⟨hne, used, hw⟩

/-- A path to a directory leads there by its names. -/
theorem leads_of_directory (h : fs.directory path = .ok home) :
    fs.entry? home = some .directory ∧
      ∃ used, fs.Leads (fun _ => True) used (fs.start path) path.parts.names home := by
  unfold directory at h
  obtain ⟨place, hresolve, hentry⟩ := bind_eq_ok_iff.1 h
  obtain ⟨-, used, hw⟩ := denotes_of_resolve hresolve
  split at hentry
  · next hd =>
    obtain rfl := Except.ok.inj hentry
    exact ⟨hd, used, (leads_steps_iff (entry?_start fs path) hd).1 hw⟩
  · cases hentry

theorem leads_directory {way : List String} (h : fs.entry? (home ++ way) = some .directory) :
    fs.Leads (fun _ => True) 0 home way (home ++ way) := by
  induction way generalizing home with
  | nil => simpa using Leads.done
  | cons name rest ih =>
    rw [List.append_cons] at h ⊢
    have hname : fs.entry? (home ++ [name]) = some .directory := by
      by_cases hrest : rest = []
      · simpa [hrest] using h
      · exact entry?_of_append h hrest
    exact .directory trivial hname (ih h)

/-- A path at which an entry is listed names the place of the entry. -/
theorem names_descend {way : List String} (hdir : fs.directory path = .ok home) (hne : way ≠ [])
    (h : fs.entry? (home ++ way) = some entry) : fs.Names (path.descend way) (home ++ way) := by
  obtain ⟨hhome, used, hw⟩ := leads_of_directory hdir
  have hparts := Path.parts_descend (text_ne_empty_of_directory hdir) hne (isName_below hne h)
  have hstart : fs.start (path.descend way) = fs.start path := by
    have habs : (path.descend way).isAbsolute = path.isAbsolute :=
      congrArg Path.Parts.rooted hparts
    rw [start, start, habs]
  obtain ⟨above, name, rfl⟩ := List.eq_nil_or_concat' way |>.resolve_left hne
  rw [← List.append_assoc] at h
  have habove := entry?_above h
  refine ⟨path.parts.names ++ above, name, home ++ above, used, ?_, habove, ?_, ?_⟩
  · rw [hparts, List.append_assoc]
  · rw [hstart]
    exact hw.append hhome (leads_directory habove)
  · rw [List.append_assoc]

end FileSystem

end PluginHost
