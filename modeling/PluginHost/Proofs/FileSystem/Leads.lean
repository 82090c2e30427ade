import PluginHost.FileSystem.Resolve

/-!
# Where paths lead

`FileSystem.Leads` says, without any order of search, that names lead from one place to another
through some number of symbolic links.  Following names finds exactly these places
(`leads_of_follow`, `follow_of_leads`), so names lead to one place only (`Leads.unique`).  A way
can be cut behind any of its names (`Leads.split`), and two ways can be put together
(`Leads.append`), as far as the place between them is a directory.
-/

namespace PluginHost

namespace FileSystem

variable {fs : FileSystem} {passable : Location → Prop}

/-! ### The tree -/

@[simp]
theorem entry?_nil (fs : FileSystem) : fs.entry? [] = some .directory := rfl

theorem mem_of_entry?_eq {place : Location} {entry : Entry} (hp : place ≠ [])
    (h : fs.entry? place = some entry) : (place, entry) ∈ fs.entries := by
  unfold entry? at h
  rw [if_neg hp] at h
  obtain ⟨before, after, he, -⟩ := List.lookup_eq_some_iff.1 h
  simp [he]

theorem entry?_of_mem {place : Location} {entry : Entry} (h : (place, entry) ∈ fs.entries) :
    fs.entry? place = some entry := by
  unfold entry?
  rw [if_neg (fs.tree.named _ h).1]
  obtain ⟨before, after, he⟩ := List.append_of_mem h
  refine List.lookup_eq_some_iff.2 ⟨before, after, he, fun e hmem => ?_⟩
  -- no entry before this one is at the same place
  have hd := fs.tree.distinct
  rw [he, List.map_append, List.nodup_append] at hd
  have hne : e.1 ≠ place := hd.2.2 e.1 (List.mem_map_of_mem hmem) place (by simp)
  simpa using hne.symm

theorem entry?_of_isDirectoryOf {place : Location} (h : IsDirectoryOf fs.entries place) :
    fs.entry? place = some .directory := by
  rcases h with rfl | h
  · exact entry?_nil fs
  · exact entry?_of_mem h

theorem isEntryName_of_entry?_eq {place : Location} {name : String} {entry : Entry}
    (h : fs.entry? (place ++ [name]) = some entry) : IsEntryName name :=
  (fs.tree.named _ (mem_of_entry?_eq (by simp) h)).2 name (by simp)

theorem entry?_above {place : Location} {name : String} {entry : Entry}
    (h : fs.entry? (place ++ [name]) = some entry) : fs.entry? place = some .directory := by
  have hp := fs.tree.parented _ (mem_of_entry?_eq (by simp) h)
  rw [List.dropLast_concat] at hp
  exact entry?_of_isDirectoryOf hp

theorem entry?_of_append {place : Location} {names : List String} {entry : Entry}
    (h : fs.entry? (place ++ names) = some entry) (hn : names ≠ []) :
    fs.entry? place = some .directory := by
  induction names generalizing place with
  | nil => exact absurd rfl hn
  | cons name rest ih =>
    rw [List.append_cons] at h
    cases rest with
    | nil => exact entry?_above (by simpa using h)
    | cons next others => exact entry?_above (ih h (by simp))

theorem entry?_dropLast {place : Location} (h : fs.entry? place = some .directory) :
    fs.entry? place.dropLast = some .directory := by
  rcases List.eq_nil_or_concat place with rfl | ⟨above, name, rfl⟩
  · exact h
  · rw [List.concat_eq_append] at h ⊢
    rw [List.dropLast_concat]
    exact entry?_above h

theorem entry?_start (fs : FileSystem) (path : Path) :
    fs.entry? (fs.start path) = some .directory := by
  unfold start
  split
  · exact entry?_nil fs
  · exact entry?_of_isDirectoryOf fs.current_directory

/-- A link is followed from a directory: its target starts at the root directory or where the
link stands. -/
theorem entry?_linkStart {place : Location} (h : fs.entry? place = some .directory)
    (target : Path) : fs.entry? (if target.isAbsolute then [] else place) = some .directory := by
  split
  · exact entry?_nil fs
  · exact h

/-! ### Ways -/

/-- Names lead from a place to another one, through so many links and over places that may be
passed. -/
inductive Leads (fs : FileSystem) (passable : Location → Prop) :
    Nat → Location → List String → Location → Prop
  | done {place : Location} : Leads fs passable 0 place [] place
  | here {links : Nat} {place target : Location} {rest : List String}
      (next : Leads fs passable links place rest target) :
      Leads fs passable links place ("." :: rest) target
  | up {links : Nat} {place target : Location} {rest : List String}
      (next : Leads fs passable links place.dropLast rest target) :
      Leads fs passable links place (".." :: rest) target
  | directory {links : Nat} {place target : Location} {name : String} {rest : List String}
      (pass : passable (place ++ [name]))
      (entry : fs.entry? (place ++ [name]) = some .directory)
      (next : Leads fs passable links (place ++ [name]) rest target) :
      Leads fs passable links place (name :: rest) target
  | file {place : Location} {name : String} {content : ByteArray}
      (pass : passable (place ++ [name]))
      (entry : fs.entry? (place ++ [name]) = some (.file content)) :
      Leads fs passable 0 place [name] (place ++ [name])
  | link {links : Nat} {place target : Location} {name : String} {rest : List String} {path : Path}
      (pass : passable (place ++ [name]))
      (entry : fs.entry? (place ++ [name]) = some (.link path))
      (next : Leads fs passable links (if path.isAbsolute then [] else place)
        (path.parts.steps ++ rest) target) :
      Leads fs passable (links + 1) place (name :: rest) target

theorem Leads.mono {larger : Location → Prop} (hp : ∀ place, passable place → larger place)
    {links : Nat} {place target : Location} {names : List String}
    (h : fs.Leads passable links place names target) :
    fs.Leads larger links place names target := by
  induction h with
  | done => exact .done
  | here _ ih => exact .here ih
  | up _ ih => exact .up ih
  | directory pass entry _ ih => exact .directory (hp _ pass) entry ih
  | file pass entry => exact .file (hp _ pass) entry
  | link pass entry _ ih => exact .link (hp _ pass) entry ih

/-- Whatever is no directory can only be led to if it may be passed. -/
theorem Leads.passable_target {links : Nat} {place target : Location} {names : List String}
    (h : fs.Leads passable links place names target) (hd : fs.entry? place = some .directory)
    (ht : fs.entry? target ≠ some .directory) : passable target := by
  induction h with
  | done => exact absurd hd ht
  | here _ ih => exact ih hd ht
  | up _ ih => exact ih (entry?_dropLast hd) ht
  | directory _ entry _ ih => exact ih entry ht
  | file pass _ => exact pass
  | link _ _ _ ih => exact ih (entry?_linkStart hd _) ht

/-- A way can be cut where a name is still left; there it leads over a directory. -/
theorem Leads.split {links : Nat} {place target : Location} {names rest : List String}
    (h : fs.Leads passable links place (names ++ rest) target) (hr : rest ≠ [])
    (hd : fs.entry? place = some .directory) :
    ∃ middle linksTo linksFrom, linksTo + linksFrom = links ∧
      fs.entry? middle = some .directory ∧
      fs.Leads passable linksTo place names middle ∧
      fs.Leads passable linksFrom middle rest target := by
  generalize hs : names ++ rest = steps at h
  induction h generalizing names with
  | done => exact absurd (List.append_eq_nil_iff.1 hs).2 hr
  | @here links place target tail next ih =>
    cases names with
    | nil =>
      -- nothing is left of the first names: the way is cut where it starts
      obtain rfl : rest = _ := hs
      exact ⟨place, 0, links, by omega, hd, .done, .here next⟩
    | cons name names =>
      obtain ⟨rfl, rfl⟩ := List.cons.inj hs
      obtain ⟨middle, i, j, hij, hm, hi, hj⟩ := ih hd rfl
      exact ⟨middle, i, j, hij, hm, .here hi, hj⟩
  | @up links place target tail next ih =>
    cases names with
    | nil =>
      obtain rfl : rest = _ := hs
      exact ⟨place, 0, links, by omega, hd, .done, .up next⟩
    | cons name names =>
      obtain ⟨rfl, rfl⟩ := List.cons.inj hs
      obtain ⟨middle, i, j, hij, hm, hi, hj⟩ := ih (entry?_dropLast hd) rfl
      exact ⟨middle, i, j, hij, hm, .up hi, hj⟩
  | @directory links place target name tail pass entry next ih =>
    cases names with
    | nil =>
      obtain rfl : rest = _ := hs
      exact ⟨place, 0, links, by omega, hd, .done, .directory pass entry next⟩
    | cons first names =>
      obtain ⟨rfl, rfl⟩ := List.cons.inj hs
      obtain ⟨middle, i, j, hij, hm, hi, hj⟩ := ih entry rfl
      exact ⟨middle, i, j, hij, hm, .directory pass entry hi, hj⟩
  | @file place name content pass entry =>
    cases names with
    | nil =>
      obtain rfl : rest = _ := hs
      exact ⟨place, 0, 0, rfl, hd, .done, .file pass entry⟩
    | cons first names =>
      have ht := (List.cons.inj hs).2
      exact absurd (List.append_eq_nil_iff.1 ht).2 hr
  | @link links place target name tail path pass entry next ih =>
    cases names with
    | nil =>
      obtain rfl : rest = _ := hs
      exact ⟨place, 0, links + 1, by omega, hd, .done, .link pass entry next⟩
    | cons first names =>
      -- the names of the target come first now, so the cut is behind them
      obtain ⟨rfl, rfl⟩ := List.cons.inj hs
      obtain ⟨middle, i, j, hij, hm, hi, hj⟩ :=
        ih (entry?_linkStart hd path) (List.append_assoc _ _ _)
      exact ⟨middle, i + 1, j, by omega, hm, .link pass entry hi, hj⟩

/-- Ways are put together at a directory. -/
theorem Leads.append {linksTo linksFrom : Nat} {place middle target : Location}
    {names rest : List String} (h : fs.Leads passable linksTo place names middle)
    (hm : fs.entry? middle = some .directory)
    (hr : fs.Leads passable linksFrom middle rest target) :
    fs.Leads passable (linksTo + linksFrom) place (names ++ rest) target := by
  induction h with
  | done => simpa using hr
  | here _ ih => exact .here (ih hm hr)
  | up _ ih => exact .up (ih hm hr)
  | directory pass entry _ ih => exact .directory pass entry (ih hm hr)
  | file _ entry => simp [entry] at hm
  | @link links _ _ _ _ _ pass entry _ ih =>
    rw [Nat.add_right_comm]
    refine .link pass entry ?_
    have next := ih hm hr
    rwa [List.append_assoc] at next

theorem leads_names {home : Location} {names : List String} {content : ByteArray}
    (h : fs.entry? (home ++ names) = some (.file content)) (hn : names ≠ [])
    (hp : ∀ place, place <+: home ++ names → passable place) :
    fs.Leads passable 0 home names (home ++ names) := by
  induction names generalizing home with
  | nil => exact absurd rfl hn
  | cons name rest ih =>
    have hpass : passable (home ++ [name]) := hp _ ⟨rest, by simp⟩
    cases rest with
    | nil => exact .file hpass h
    | cons next others =>
      rw [List.append_cons] at h hp ⊢
      exact .directory hpass (entry?_of_append h (by simp)) (ih h (by simp) hp)

/-! ### Following -/

/-- What `walk` finds, names lead to, if what it finds behind a link does. -/
theorem leads_of_walk [DecidablePred passable] {links : Nat}
    {followLink : Location → List String → Except ResolveError Reached}
    (hf : ∀ place names reached, followLink place names = .ok reached →
      ∃ used, reached.links + used + 1 = links ∧
        fs.Leads passable used place names reached.place)
    {place : Location} {names : List String} {reached : Reached}
    (h : fs.walk { passable := fun place => decide (passable place) } followLink links place
      names = .ok reached) :
    ∃ used, reached.links + used = links ∧ fs.Leads passable used place names reached.place := by
  induction names generalizing place with
  | nil =>
    obtain rfl := Except.ok.inj h
    exact ⟨0, rfl, .done⟩
  | cons name rest ih =>
    rw [walk] at h
    split at h
    · next hdot =>
      obtain ⟨used, hu, hw⟩ := ih h
      exact ⟨used, hu, hdot ▸ .here hw⟩
    · split at h
      · next hup =>
        obtain ⟨used, hu, hw⟩ := ih h
        exact ⟨used, hu, hup ▸ .up hw⟩
      · split at h
        · cases h
        · next hpass =>
          have pass : passable (place ++ [name]) := by simpa using (not_or.1 hpass).2
          split at h
          · cases h
          · next entry =>
            obtain ⟨used, hu, hw⟩ := ih h
            exact ⟨used, hu, .directory pass entry hw⟩
          · next entry =>
            split at h
            · next hr =>
              obtain rfl := Except.ok.inj h
              obtain rfl := List.isEmpty_iff.1 hr
              exact ⟨0, rfl, .file pass entry⟩
            · cases h
          · next entry =>
            obtain ⟨used, hu, hw⟩ := hf _ _ _ h
            exact ⟨used + 1, by omega, .link pass entry hw⟩

/-- What is found by following names, they lead to. -/
theorem leads_of_follow [DecidablePred passable] {links : Nat} {place : Location}
    {names : List String} {reached : Reached}
    (h : fs.follow { passable := fun place => decide (passable place) } links place names =
      .ok reached) :
    ∃ used, reached.links + used = links ∧ fs.Leads passable used place names reached.place := by
  induction links generalizing place names reached with
  | zero =>
    refine leads_of_walk (fun _ _ _ hf => ?_) h
    cases hf
  | succ links ih =>
    refine leads_of_walk (fun _ _ _ hf => ?_) h
    obtain ⟨used, hu, hw⟩ := ih hf
    exact ⟨used, by omega, hw⟩

section Steps

variable [DecidablePred passable] {links : Nat} {place : Location} {name : String}
  {rest : List String}

theorem follow_nil (mode : Mode) : fs.follow mode links place [] = .ok { place, links } := by
  cases links <;> rfl

theorem follow_here (mode : Mode) :
    fs.follow mode links place ("." :: rest) = fs.follow mode links place rest := by
  cases links <;> simp [follow, walk]

theorem follow_up (mode : Mode) :
    fs.follow mode links place (".." :: rest) = fs.follow mode links place.dropLast rest := by
  cases links <;> simp [follow, walk]

/-- A name that is followed is none of those with a meaning of their own, nor too long. -/
theorem follow_name {entry : Entry} (pass : passable (place ++ [name]))
    (he : fs.entry? (place ++ [name]) = some entry) :
    fs.follow { passable := fun place => decide (passable place) } links place (name :: rest) =
      match entry with
      | .directory =>
        fs.follow { passable := fun place => decide (passable place) } links
          (place ++ [name]) rest
      | .file _ =>
        if rest.isEmpty then .ok { place := place ++ [name], links } else .error .notDirectory
      | .link path =>
        match links with
        | 0 => .error .tooManyLinks
        | links + 1 =>
          fs.follow { passable := fun place => decide (passable place) } links
            (if path.isAbsolute then [] else place) (path.parts.steps ++ rest) := by
  obtain ⟨-, hdot, hup, -, hlen⟩ := isEntryName_of_entry?_eq he
  have hlen' : ¬ nameLimit < name.utf8ByteSize := Nat.not_lt.2 hlen
  cases links <;> cases entry <;> simp [follow, walk, hdot, hup, hlen', pass, he]

end Steps

/-- Where names lead is found by following them, if enough links may be followed. -/
theorem follow_of_leads [DecidablePred passable] {used links : Nat} {place target : Location}
    {names : List String} (h : fs.Leads passable used place names target) (hl : used ≤ links) :
    fs.follow { passable := fun place => decide (passable place) } links place names =
      .ok { place := target, links := links - used } := by
  induction h generalizing links with
  | done => exact follow_nil _
  | here _ ih => exact (follow_here _).trans (ih hl)
  | up _ ih => exact (follow_up _).trans (ih hl)
  | directory pass entry _ ih => exact (follow_name pass entry).trans (ih hl)
  | file pass entry => exact follow_name pass entry
  | @link used _ _ _ _ _ pass entry _ ih =>
    obtain ⟨links, rfl⟩ : ∃ n, links = n + 1 := ⟨links - 1, by omega⟩
    rw [follow_name pass entry, Nat.add_sub_add_right]
    exact ih (by omega)

/-- **Names lead to one place, through one number of links.** -/
theorem Leads.unique {used used' : Nat} {place target target' : Location} {names : List String}
    (h : fs.Leads passable used place names target)
    (h' : fs.Leads passable used' place names target') : used = used' ∧ target = target' := by
  -- with links enough for both ways, following the names finds where they lead
  have hf := follow_of_leads (h.mono fun _ _ => trivial) (Nat.le_add_right used used')
  rw [follow_of_leads (h'.mono fun _ _ => trivial) (Nat.le_add_left used' used)] at hf
  injection hf with hf
  injection hf with hplace hlinks
  exact ⟨by omega, hplace.symm⟩

/-- The slash at the end of a path makes no difference if it leads to a directory. -/
theorem leads_steps_iff {links : Nat} {place target : Location} {q : Path.Parts}
    (hd : fs.entry? place = some .directory) (ht : fs.entry? target = some .directory) :
    fs.Leads passable links place q.steps target ↔
      fs.Leads passable links place q.names target := by
  unfold Path.Parts.steps
  cases q.trailing with
  | false => simp
  | true =>
    constructor
    · intro h
      obtain ⟨middle, i, j, hij, -, hi, hj⟩ := h.split (by simp) hd
      obtain ⟨rfl, rfl⟩ := hj.unique (.here .done)
      exact hij ▸ hi
    · intro h
      exact h.append ht (.here .done)

/-! ### Paths -/

/-- A path denotes a place: it leads there, through however many links and however far from the
root directory. -/
def Denotes (fs : FileSystem) (path : Path) (place : Location) : Prop :=
  path.text ≠ "" ∧
    ∃ used, fs.Leads (fun _ => True) used (fs.start path) path.parts.steps place

/-- A path reaches a place: it leads there within the limits of paths and links, also if the
places on the way are written down. -/
def Reaches (fs : FileSystem) (path : Path) (place : Location) : Prop :=
  path.text ≠ "" ∧ path.text.utf8ByteSize ≤ pathLimit ∧
    ∃ used ≤ linkLimit,
      fs.Leads (fun place => place.pathLength ≤ pathLimit) used (fs.start path)
        path.parts.steps place

theorem Denotes.unique {path : Path} {place place' : Location} (h : fs.Denotes path place)
    (h' : fs.Denotes path place') : place = place' := by
  obtain ⟨-, _, hw⟩ := h
  obtain ⟨-, _, hw'⟩ := h'
  exact (hw.unique hw').2

theorem Reaches.denotes {path : Path} {place : Location} (h : fs.Reaches path place) :
    fs.Denotes path place := by
  obtain ⟨hne, -, used, -, hw⟩ := h
  exact ⟨hne, used, hw.mono fun _ _ => trivial⟩

theorem canonical_eq_ok_iff {path : Path} {place : Location} :
    fs.canonical path = .ok place ↔ path.text ≠ "" ∧
      ∃ used ≤ linkLimit,
        fs.Leads (fun place => place.pathLength ≤ pathLimit) used (fs.start path)
          path.parts.steps place := by
  unfold canonical
  constructor
  · intro h
    split at h
    · cases h
    · next hne =>
      cases hf : fs.follow { passable := fun place => decide (place.pathLength ≤ pathLimit) }
          linkLimit (fs.start path) path.parts.steps with
      | error e => rw [hf] at h; cases h
      | ok reached =>
        rw [hf] at h
        obtain rfl := Except.ok.inj h
        obtain ⟨used, hu, hw⟩ := leads_of_follow hf
        exact ⟨hne, used, by omega, hw⟩
  · rintro ⟨hne, used, hu, hw⟩
    rw [if_neg hne, follow_of_leads hw hu]
    rfl

/-- A path reaches its canonical place, if it is not too long itself. -/
theorem reaches_iff {path : Path} {place : Location} :
    fs.Reaches path place ↔
      path.text.utf8ByteSize ≤ pathLimit ∧ fs.canonical path = .ok place := by
  rw [canonical_eq_ok_iff, Reaches, and_left_comm]

theorem size_le_of_resolve {path : Path} {place : Location} (h : fs.resolve path = .ok place) :
    path.text.utf8ByteSize ≤ pathLimit := by
  unfold resolve at h
  split at h
  · cases h
  · split at h
    · cases h
    · next hl => exact Nat.not_lt.1 hl

theorem Reaches.resolve {path : Path} {place : Location} (h : fs.Reaches path place) :
    fs.resolve path = .ok place := by
  obtain ⟨hl, hc⟩ := reaches_iff.1 h
  exact resolve_of_canonical hl hc

theorem isFile_iff {path : Path} :
    fs.isFile path = true ↔ ∃ place content, fs.resolve path = .ok place ∧
      fs.entry? place = some (.file content) := by
  unfold isFile status
  cases hr : fs.resolve path with
  | error e => simp [bind, Except.bind]
  | ok place =>
    cases he : fs.entry? place with
    | none => simp [bind, Except.bind, he]
    | some entry => cases entry <;> simp [bind, Except.bind, he]

end FileSystem

end PluginHost
