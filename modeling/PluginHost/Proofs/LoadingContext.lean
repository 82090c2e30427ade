import PluginHost.LoadingContext
import PluginHost.Proofs.FileSystem.Leads
import PluginHost.Proofs.Path

/-!
# What a plugin can find

A resource is found exactly if its normal form stays below the plugin's root and reaches, from
there and behind all links, a file of the plugin's own (`LoadingContext.findResource_eq_some_iff`).
So nothing outside the root is ever found, and a file below it is found under its own names, as
far as the limits of paths and links allow.  Beyond them the operating system gives up, and so
does the search.
-/

namespace PluginHost

namespace Path

/-- A path stays below where it starts: its normal form is relative and does not begin
with "..". -/
def StaysBelow (p : Path) : Prop :=
  p.text ≠ "" ∧ p.normal.isAbsolute = false ∧ p.normal.parts.names.head? ≠ some ".."

instance (p : Path) : Decidable p.StaysBelow := inferInstanceAs (Decidable (_ ∧ _ ∧ _))

theorem StaysBelow.isAbsolute {p : Path} (h : p.StaysBelow) : p.isAbsolute = false :=
  (isAbsolute_normal h.1).symm.trans h.2.1

theorem StaysBelow.parts_normal {p : Path} (h : p.StaysBelow) : p.normal.parts = p.parts.normal :=
  Path.parts_normal h.1 h.isAbsolute

theorem StaysBelow.names_normal {p : Path} (h : p.StaysBelow) : p.normal.parts.names ≠ [] := by
  rw [h.parts_normal]
  exact (Parts.proper_normal (fun _ => isName_of_mem_parts) h.isAbsolute).nonempty

theorem staysBelow_ofNames {names : List String} (hn : names ≠ [])
    (h : ∀ n ∈ names, IsPlain n) : (ofNames names).StaysBelow := by
  have hname := isName_of_isPlain h
  have hparts := parts_ofNames hn hname
  rw [StaysBelow, normal_ofNames hn h, hparts]
  refine ⟨text_ofNames_ne_empty hn hname, ?_, fun hh => ?_⟩
  · show (ofNames names).parts.rooted = false
    rw [hparts]
  · exact (h _ (List.mem_of_head? hh)).2.2 rfl

end Path

@[simp] theorem Location.pathLength_nil : pathLength [] = 0 := rfl

@[simp] theorem Location.pathLength_cons (name : String) (rest : Location) :
    pathLength (name :: rest) = name.utf8ByteSize + 1 + rest.pathLength := rfl

@[simp] theorem Location.pathLength_append (above rest : Location) :
    pathLength (above ++ rest) = above.pathLength + rest.pathLength := by
  induction above with
  | nil => simp
  | cons name above ih => simp [ih, Nat.add_assoc]

@[simp] theorem Location.pathLength_replicate (depth : Nat) (name : String) :
    pathLength (List.replicate depth name) = depth * (name.utf8ByteSize + 1) := by
  induction depth with
  | zero => simp
  | succ depth ih => simp [List.replicate_succ, ih, Nat.succ_mul, Nat.add_comm]

theorem Location.pathLength_le {above place : Location} (h : above <+: place) :
    above.pathLength ≤ place.pathLength := by
  obtain ⟨rest, rfl⟩ := h
  simp

/-- The way to a place is as long as the row of its names, behind a slash. -/
theorem Location.pathLength_eq {place : Location} (h : place ≠ []) :
    place.pathLength = (Path.ofNames place).text.utf8ByteSize + 1 := by
  induction place with
  | nil => exact absurd rfl h
  | cons name rest ih =>
    cases rest with
    | nil => simp [Path.ofNames, Path.joinNames]
    | cons next others =>
      have hrest := ih (by simp)
      simp only [pathLength_cons, Path.ofNames, Path.joinNames] at hrest ⊢
      have hslash : "/".utf8ByteSize = 1 := rfl
      simp only [String.intercalate_cons_cons, String.utf8ByteSize_append, hslash]
      omega

namespace FileSystem

variable {fs : FileSystem} {passable : Location → Prop}

theorem isPlain_of_entry?_eq {place : Location} {entry : Entry} (h : fs.entry? place = some entry) :
    ∀ n ∈ place, Path.IsPlain n := by
  intro n hn
  have hp : place ≠ [] := List.ne_nil_of_mem hn
  obtain ⟨hne, hdot, hup, hslash, -⟩ := (fs.tree.named _ (mem_of_entry?_eq hp h)).2 n hn
  exact ⟨⟨hne, hslash⟩, hdot, hup⟩

theorem start_join {root path : Path} (hroot : root.text ≠ "") (hr : path.isAbsolute = false)
    (hn : path.parts.names ≠ []) : fs.start (root / path) = fs.start root := by
  have habs : (root / path).isAbsolute = root.isAbsolute := by
    show (root / path).parts.rooted = root.parts.rooted
    rw [Path.parts_join hroot hr hn]
  rw [start, start, habs]

theorem steps_join {root path : Path} (hroot : root.text ≠ "") (hr : path.isAbsolute = false)
    (hn : path.parts.names ≠ []) :
    (root / path).parts.steps = root.parts.names ++ path.parts.steps := by
  rw [Path.parts_join hroot hr hn, Path.Parts.steps, Path.Parts.steps, List.append_assoc]

/-- A path that continues another leads over the directory that the other leads to. -/
theorem Leads.exists_home {root path : Path} (hroot : root.text ≠ "")
    (hr : path.isAbsolute = false) (hn : path.parts.names ≠ []) {used : Nat} {place : Location}
    (h : fs.Leads passable used (fs.start (root / path)) (root / path).parts.steps place) :
    ∃ home, fs.entry? home = some .directory ∧
      ∃ usedTo ≤ used, fs.Leads passable usedTo (fs.start root) root.parts.steps home := by
  rw [start_join hroot hr hn, steps_join hroot hr hn] at h
  have hsteps : path.parts.steps ≠ [] := by simp [Path.Parts.steps, hn]
  have hstart := entry?_start fs root
  obtain ⟨home, usedTo, usedFrom, hu, hd, hw, -⟩ := h.split hsteps hstart
  exact ⟨home, hd, usedTo, by omega, (leads_steps_iff hstart hd).2 hw⟩

/-- What a root denotes is the directory that paths below it lead over, so it has a canonical
place if one of them has. -/
theorem Reaches.canonical_root {root path : Path} (hroot : root.text ≠ "")
    (hr : path.isAbsolute = false) (hn : path.parts.names ≠ []) {place home : Location}
    (h : fs.Reaches (root / path) place) (hhome : fs.Denotes root home) :
    fs.entry? home = some .directory ∧ fs.canonical root = .ok home := by
  obtain ⟨-, -, used, hu, hw⟩ := h
  obtain ⟨home', hd, usedTo, huTo, hwTo⟩ := hw.exists_home hroot hr hn
  obtain rfl := hhome.unique ⟨hroot, usedTo, hwTo.mono fun _ _ => trivial⟩
  exact ⟨hd, canonical_eq_ok_iff.2 ⟨hroot, usedTo, Nat.le_trans huTo hu, hwTo⟩⟩

theorem start_ofNames {names : List String} (hn : names ≠ []) (h : ∀ n ∈ names, Path.IsName n) :
    fs.start (Path.ofNames names) = fs.current := by
  have hrel : (Path.ofNames names).isAbsolute = false := by
    show (Path.ofNames names).parts.rooted = false
    rw [Path.parts_ofNames hn h]
  simp [start, hrel]

theorem steps_ofNames {names : List String} (hn : names ≠ []) (h : ∀ n ∈ names, Path.IsName n) :
    (Path.ofNames names).parts.steps = names := by
  rw [Path.parts_ofNames hn h]
  simp [Path.Parts.steps]

theorem denotes_ofNames {names : List String} {used : Nat} {place : Location} (hn : names ≠ [])
    (h : ∀ n ∈ names, Path.IsName n)
    (hw : fs.Leads (fun _ => True) used fs.current names place) :
    fs.Denotes (Path.ofNames names) place := by
  refine ⟨Path.text_ofNames_ne_empty hn h, used, ?_⟩
  rwa [start_ofNames hn h, steps_ofNames hn h]

theorem Reaches.join {root : Path} {home : Location} {names : List String} {content : ByteArray}
    (h : fs.Reaches root home) (hn : names ≠ [])
    (hfile : fs.entry? (home ++ names) = some (.file content))
    (hsize : (root / Path.ofNames names).text.utf8ByteSize ≤ pathLimit)
    (hlen : (home ++ names : Location).pathLength ≤ pathLimit) :
    fs.Reaches (root / Path.ofNames names) (home ++ names) := by
  obtain ⟨hroot, -, used, hu, hw⟩ := h
  have hnames : ∀ n ∈ names, Path.IsPlain n := fun n hmem =>
    isPlain_of_entry?_eq hfile n (List.mem_append_right _ hmem)
  have hparts := Path.parts_ofNames hn (Path.isName_of_isPlain hnames)
  have hr := (Path.staysBelow_ofNames hn hnames).isAbsolute
  have hne : (Path.ofNames names).parts.names ≠ [] := by rw [hparts]; exact hn
  have hd := entry?_of_append hfile hn
  have hbelow : fs.Leads (fun place => place.pathLength ≤ pathLimit) 0 home names
      (home ++ names) :=
    leads_names hfile hn fun place hp => Nat.le_trans (Location.pathLength_le hp) hlen
  refine ⟨fun he => ?_, hsize, used, hu, ?_⟩
  · obtain ⟨stem, htext, -⟩ := Path.exists_toList_join hroot hr
    simp [he] at htext
  · rw [start_join hroot hr hne, steps_join hroot hr hne, hparts]
    have htoHome := (leads_steps_iff (entry?_start fs root) hd).1 hw
    simpa [Path.Parts.steps] using htoHome.append hd hbelow

end FileSystem

namespace LoadingContext

variable {c : LoadingContext}

/-- A place is that of a file in the plugin's own directory, names compared one by one. -/
def Owns (c : LoadingContext) (place : Location) : Prop :=
  ∃ home content, c.files.Denotes c.root home ∧ home <+: place ∧
    c.files.entry? place = some (.file content)

theorem relativeParts?_eq_some_iff {resource : Path} {parts : Path.Parts} :
    relativeParts? resource = some parts ↔
      resource.StaysBelow ∧ parts = resource.normal.parts := by
  by_cases ht : resource.text = ""
  · simp [relativeParts?, ht, Path.StaysBelow]
  · cases hr : resource.isAbsolute with
    | true =>
      have hrooted : resource.parts.normal.rooted = true := resource.parts.rooted_normal.trans hr
      have habs : resource.normal.isAbsolute = true := (Path.isAbsolute_normal ht).trans hr
      simp [relativeParts?, hrooted, Path.StaysBelow, habs]
    | false =>
      have hrooted : resource.parts.normal.rooted = false := resource.parts.rooted_normal.trans hr
      have habs : resource.normal.isAbsolute = false := (Path.isAbsolute_normal ht).trans hr
      simp [relativeParts?, ht, hrooted, Path.StaysBelow, habs, Path.parts_normal ht hr, eq_comm]

theorem confines_iff (hroot : c.root.text ≠ "") {path : Path} :
    c.confines path = true ↔ ∃ place home, c.files.canonical path = .ok place ∧
      c.files.canonical c.root = .ok home ∧ home <+: place := by
  unfold confines
  cases c.files.canonical path with
  | error e => simp
  | ok place =>
    cases c.files.canonical c.root with
    | error e => simp [hroot]
    | ok home => simp [hroot]

theorem findResource_eq_some_iff_resolves {resource location : Path} :
    c.findResource resource = some location ↔ resource.StaysBelow ∧
      location = c.root / resource.normal ∧ c.files.isFile location = true ∧
        c.confines location = true := by
  have hpath : resource.StaysBelow → resource.normal.parts.path = resource.normal := fun h => by
    rw [h.parts_normal, Path.normal, if_neg h.1]
  simp only [findResource, bind, Option.bind_eq_some_iff, relativeParts?_eq_some_iff,
    Option.ite_none_right_eq_some, Option.some.injEq, Bool.and_eq_true]
  constructor
  · rintro ⟨parts, ⟨hs, rfl⟩, ⟨hfile, hin⟩, rfl⟩
    rw [hpath hs] at hfile hin ⊢
    exact ⟨hs, rfl, hfile, hin⟩
  · rintro ⟨hs, rfl, hfile, hin⟩
    refine ⟨_, ⟨hs, rfl⟩, ?_⟩
    rw [hpath hs]
    exact ⟨⟨hfile, hin⟩, rfl⟩

/-- What lies at a location below the root, behind all links, is confined if it is the plugin's
own. -/
theorem isFile_and_confines_iff (hroot : c.root.text ≠ "") {resource : Path}
    (hs : resource.StaysBelow) :
    c.files.isFile (c.root / resource.normal) = true ∧
        c.confines (c.root / resource.normal) = true ↔
      ∃ place, c.files.Reaches (c.root / resource.normal) place ∧ c.Owns place := by
  rw [FileSystem.isFile_iff, confines_iff hroot]
  constructor
  · rintro ⟨⟨place, content, hres, hfile⟩, place', home, hcan, hhome, hpre⟩
    have hreach : c.files.Reaches _ place' :=
      FileSystem.reaches_iff.2 ⟨FileSystem.size_le_of_resolve hres, hcan⟩
    -- what was opened and what was compared with the root is one place
    obtain rfl : place' = place := Except.ok.inj (hreach.resolve.symm.trans hres)
    obtain ⟨hne, used, -, hw⟩ := FileSystem.canonical_eq_ok_iff.1 hhome
    exact ⟨place', hreach, home, content, ⟨hne, used, hw.mono fun _ _ => trivial⟩, hpre, hfile⟩
  · rintro ⟨place, hreach, home, content, hhome, hpre, hfile⟩
    have hcan := (FileSystem.reaches_iff.1 hreach).2
    obtain ⟨-, hcanHome⟩ := hreach.canonical_root hroot hs.2.1 hs.names_normal hhome
    exact ⟨⟨place, content, hreach.resolve, hfile⟩, place, home, hcan, hcanHome, hpre⟩

theorem findResource_eq_some_iff (hroot : c.root.text ≠ "") {resource location : Path} :
    c.findResource resource = some location ↔ resource.StaysBelow ∧
      location = c.root / resource.normal ∧
        ∃ place, c.files.Reaches location place ∧ c.Owns place := by
  rw [findResource_eq_some_iff_resolves]
  constructor
  · rintro ⟨hs, rfl, h⟩
    exact ⟨hs, rfl, (isFile_and_confines_iff hroot hs).1 h⟩
  · rintro ⟨hs, rfl, h⟩
    exact ⟨hs, rfl, (isFile_and_confines_iff hroot hs).2 h⟩

theorem findResource_eq_none (hroot : c.root.text ≠ "") {resource : Path}
    (h : ∀ place, ¬ c.files.Reaches (c.root / resource.normal) place) :
    c.findResource resource = none := by
  rw [Option.eq_none_iff_forall_ne_some]
  intro location hfound
  obtain ⟨-, hl, place, hreach, -⟩ := (findResource_eq_some_iff hroot).1 hfound
  exact h place (hl ▸ hreach)

theorem exists_below_of_findResource (hroot : c.root.text ≠ "") {resource location : Path}
    (h : c.findResource resource = some location) :
    ∃ home rest content, c.files.Denotes c.root home ∧
      c.files.entry? home = some .directory ∧ rest ≠ [] ∧
      c.files.Denotes location (home ++ rest) ∧
      c.files.entry? (home ++ rest) = some (.file content) := by
  obtain ⟨hs, rfl, place, hreach, home, content, hhome, ⟨rest, rfl⟩, hfile⟩ :=
    (findResource_eq_some_iff hroot).1 h
  obtain ⟨hd, -⟩ := hreach.canonical_root hroot hs.2.1 hs.names_normal hhome
  -- the root is a directory, so the file is not the root itself
  refine ⟨home, rest, content, hhome, hd, ?_, hreach.denotes, hfile⟩
  rintro rfl
  simp [hd] at hfile

theorem findResource_of_file {home : Location} {names : List String} {content : ByteArray}
    (hhome : c.files.Reaches c.root home) (hn : names ≠ [])
    (hfile : c.files.entry? (home ++ names) = some (.file content))
    (hsize : (c.root / Path.ofNames names).text.utf8ByteSize ≤ FileSystem.pathLimit)
    (hlen : (home ++ names : Location).pathLength ≤ FileSystem.pathLimit) :
    c.findResource (Path.ofNames names) = some (c.root / Path.ofNames names) := by
  have hnames : ∀ n ∈ names, Path.IsPlain n := fun n hmem =>
    FileSystem.isPlain_of_entry?_eq hfile n (List.mem_append_right _ hmem)
  refine (findResource_eq_some_iff hhome.1).2 ⟨Path.staysBelow_ofNames hn hnames, ?_,
    home ++ names, hhome.join hn hfile hsize hlen, home, content, hhome.denotes,
    List.prefix_append _ _, hfile⟩
  rw [Path.normal_ofNames hn hnames]

/-- **A resource is found exactly if it is the plugin's own.**  What is found lies below the
directory that the root denotes, whatever the names and the links on the way; and a file there is
found under its own names, unless it or the way to it is too long. -/
theorem findResource_confined (hroot : c.root.text ≠ "") :
    (∀ resource location, c.findResource resource = some location ↔ resource.StaysBelow ∧
      location = c.root / resource.normal ∧
        ∃ place, c.files.Reaches location place ∧ c.Owns place) ∧
    (∀ resource location, c.findResource resource = some location →
      ∃ home rest content, c.files.Denotes c.root home ∧
        c.files.entry? home = some .directory ∧ rest ≠ [] ∧
        c.files.Denotes location (home ++ rest) ∧
        c.files.entry? (home ++ rest) = some (.file content)) ∧
    (∀ home names content, c.files.Reaches c.root home → names ≠ [] →
      c.files.entry? (home ++ names) = some (.file content) →
      (c.root / Path.ofNames names).text.utf8ByteSize ≤ FileSystem.pathLimit →
      (home ++ names : Location).pathLength ≤ FileSystem.pathLimit →
      c.findResource (Path.ofNames names) = some (c.root / Path.ofNames names)) :=
  ⟨fun _ _ => findResource_eq_some_iff hroot, fun _ _ => exists_below_of_findResource hroot,
    fun _ _ _ hhome hn hfile hsize hlen => findResource_of_file hhome hn hfile hsize hlen⟩

/-- A plugin with a file `f`, a link `s` to its own directory and a link `o` to a file of another
plugin, whose name begins with its own. -/
def neighbour : LoadingContext where
  artifactId := "p"
  root := ⟨"p"⟩
  files :=
    { entries := [(["p"], .directory), (["p", "f"], .file .empty), (["p", "s"], .link ⟨"."⟩),
        (["p", "o"], .link ⟨"../pq/f"⟩), (["pq"], .directory), (["pq", "f"], .file .empty)]
      current := []
      tree := ⟨by decide, by decide, by decide⟩
      current_directory := Or.inl rfl }

/-- The plugin finds its file under its name and through the link to its own directory, and does
not find the other plugin's file. -/
theorem findResource_neighbour :
    neighbour.root.text ≠ "" ∧
      neighbour.findResource (Path.ofNames ["f"]) = some (neighbour.root / Path.ofNames ["f"]) ∧
      neighbour.findResource ⟨"./s/f"⟩ = some ⟨"p/s/f"⟩ ∧
      neighbour.findResource ⟨"o"⟩ = none := by
  have hroot : neighbour.root.text ≠ "" := by decide
  have hhome : neighbour.files.Reaches neighbour.root ["p"] :=
    FileSystem.reaches_iff.2 ⟨by decide, rfl⟩
  obtain ⟨hiff, -, hbelow⟩ := findResource_confined hroot
  refine ⟨hroot, ?_, ?_, ?_⟩
  · exact hbelow ["p"] ["f"] .empty hhome (by simp) rfl (by decide +kernel) (by decide)
  · exact (hiff ⟨"./s/f"⟩ ⟨"p/s/f"⟩).2 ⟨by decide +kernel, by decide +kernel, ["p", "f"],
      FileSystem.reaches_iff.2 ⟨by decide, rfl⟩, ["p"], .empty, hhome.denotes, by decide, rfl⟩
  · rw [Option.eq_none_iff_forall_ne_some]
    intro location h
    obtain ⟨-, rfl, place, hreach, home, content, hdenotes, hpre, -⟩ := (hiff ⟨"o"⟩ location).1 h
    -- the link leads to the other plugin's file
    have hplace : neighbour.files.Reaches (neighbour.root / Path.normal ⟨"o"⟩) ["pq", "f"] :=
      FileSystem.reaches_iff.2 ⟨by decide +kernel, rfl⟩
    obtain rfl := hreach.denotes.unique hplace.denotes
    obtain rfl := hdenotes.unique hhome.denotes
    exact absurd hpre (by decide)

/-! ### Beyond the limits -/

/-- The way to the plugin's file over so many links to the plugin's own directory. -/
def winding (links : Nat) : List String := List.replicate links "s" ++ ["f"]

theorem isPlain_winding {links : Nat} : ∀ n ∈ winding links, Path.IsPlain n := by
  intro n hn
  rcases List.mem_append.1 hn with hn | hn
  · exact List.eq_of_mem_replicate hn ▸ (by decide)
  · exact List.mem_singleton.1 hn ▸ (by decide)

theorem isName_winding {links : Nat} : ∀ n ∈ ["p"] ++ winding links, Path.IsName n :=
  Path.forall_mem_append (by decide) (Path.isName_of_isPlain isPlain_winding)

theorem leads_home : neighbour.files.Leads (fun _ => True) 0 [] ["p"] ["p"] := by
  have hp : neighbour.files.entry? ([] ++ ["p"]) = some .directory := rfl
  exact .directory trivial hp .done

theorem leads_winding (links : Nat) :
    neighbour.files.Leads (fun _ => True) links ["p"] (winding links) ["p", "f"] := by
  induction links with
  | zero =>
    have hf : neighbour.files.entry? (["p"] ++ ["f"]) = some (.file .empty) := rfl
    exact .file trivial hf
  | succ links ih =>
    have hs : neighbour.files.entry? (["p"] ++ ["s"]) = some (.link ⟨"."⟩) := rfl
    exact .link trivial hs (.here ih)

theorem location_winding (links : Nat) :
    neighbour.root / (Path.ofNames (winding links)).normal =
      Path.ofNames (["p"] ++ winding links) := by
  have hroot : neighbour.root = Path.ofNames ["p"] := by decide
  rw [hroot]
  exact Path.join_normal_ofNames (by simp) (by simp [winding]) (by decide) isPlain_winding

theorem leads_location_winding (links : Nat) :
    neighbour.files.Leads (fun _ => True) links
      (neighbour.files.start (Path.ofNames (["p"] ++ winding links)))
      (Path.ofNames (["p"] ++ winding links)).parts.steps ["p", "f"] := by
  rw [FileSystem.start_ofNames (by simp) isName_winding,
    FileSystem.steps_ofNames (by simp) isName_winding]
  have hw := leads_home.append rfl (leads_winding links)
  rwa [Nat.zero_add] at hw

/-- Behind too many links the plugin finds nothing. -/
theorem findResource_winding {links : Nat} (hl : FileSystem.linkLimit < links) :
    neighbour.findResource (Path.ofNames (winding links)) = none := by
  refine findResource_eq_none (by decide) ?_
  rintro place ⟨-, -, used, hu, hw⟩
  rw [location_winding] at hw
  have hsame := ((hw.mono fun _ _ => trivial).unique (leads_location_winding links)).1
  omega

/-- The plugin at a root that is written with so many dots before it. -/
def dotted (dots : Nat) : LoadingContext where
  artifactId := "p"
  root := Path.ofNames (List.replicate dots "." ++ ["p"])
  files := neighbour.files

theorem isName_dotted {dots : Nat} : ∀ n ∈ List.replicate dots "." ++ ["p"], Path.IsName n := by
  intro n hn
  rcases List.mem_append.1 hn with hn | hn
  · exact List.eq_of_mem_replicate hn ▸ Path.isName_dot
  · exact List.mem_singleton.1 hn ▸ (by decide)

theorem leads_dotted (dots : Nat) :
    neighbour.files.Leads (fun _ => True) 0 [] (List.replicate dots "." ++ ["p"]) ["p"] := by
  induction dots with
  | zero => exact leads_home
  | succ dots ih => exact .here ih

theorem denotes_dotted (dots : Nat) :
    (dotted dots).files.Denotes (dotted dots).root ["p"] :=
  FileSystem.denotes_ofNames (by simp) isName_dotted (leads_dotted dots)

theorem pathLength_dotted (dots : Nat) :
    Location.pathLength (List.replicate dots "." ++ ["p"] ++ ["f"]) = dots * 2 + 4 := by
  have hdot : ".".utf8ByteSize = 1 := rfl
  have hp : "p".utf8ByteSize = 1 := rfl
  have hf : "f".utf8ByteSize = 1 := rfl
  simp [hdot, hp, hf]

/-- With too many dots in its root the plugin finds nothing. -/
theorem findResource_dotted {dots : Nat} (hd : 2047 ≤ dots) :
    (dotted dots).findResource (Path.ofNames ["f"]) = none := by
  refine findResource_eq_none (Path.text_ofNames_ne_empty (by simp) isName_dotted) ?_
  rintro place ⟨-, hsize, -⟩
  have hlocation : (dotted dots).root / (Path.ofNames ["f"]).normal =
      Path.ofNames (List.replicate dots "." ++ ["p"] ++ ["f"]) :=
    Path.join_normal_ofNames (by simp) (by simp) isName_dotted (by decide)
  have hlen := pathLength_dotted dots
  rw [Location.pathLength_eq (by simp)] at hlen
  rw [hlocation] at hsize
  have hlimit : FileSystem.pathLimit = 4095 := rfl
  omega

/-- Directories one in the other, all under one name. -/
def nest (name : String) : Nat → List (Location × Entry)
  | 0 => []
  | depth + 1 => nest name depth ++ [(List.replicate depth name ++ [name], .directory)]

theorem isDirectoryOf_nest (name : String) (depth : Nat) :
    IsDirectoryOf (nest name depth) (List.replicate depth name) := by
  cases depth with
  | zero => exact Or.inl rfl
  | succ depth => exact Or.inr (by simp [nest, List.replicate_succ'])

theorem length_le_of_mem_nest {name : String} {depth : Nat} {e : Location × Entry}
    (h : e ∈ nest name depth) : e.1.length ≤ depth := by
  induction depth with
  | zero => cases h
  | succ depth ih =>
    rcases List.mem_append.1 h with h | h
    · exact Nat.le_succ_of_le (ih h)
    · obtain rfl := List.mem_singleton.1 h
      simp

theorem notMem_nest (name : String) (depth : Nat) :
    List.replicate depth name ++ [name] ∉ (nest name depth).map (·.1) := by
  intro h
  obtain ⟨e, he, heq⟩ := List.mem_map.1 h
  have hl := length_le_of_mem_nest he
  rw [heq, List.length_append, List.length_replicate, List.length_singleton] at hl
  omega

theorem isEntryName_replicate {name : String} (h : IsEntryName name) (depth : Nat) :
    ∀ n ∈ List.replicate depth name ++ [name], IsEntryName n := by
  intro n hn
  rw [← List.replicate_succ'] at hn
  exact List.eq_of_mem_replicate hn ▸ h

theorem isTree_nest {name : String} (h : IsEntryName name) (depth : Nat) :
    IsTree (nest name depth) := by
  induction depth with
  | zero => exact FileSystem.empty.tree
  | succ depth ih =>
    exact FileSystem.isTree_append ih (isDirectoryOf_nest name depth)
      (isEntryName_replicate h depth) (notMem_nest name depth)

/-- A name as long as names may be. -/
def longName : String := String.ofList (List.replicate nameLimit 'd')

theorem size_longName : longName.utf8ByteSize = 255 := by decide +kernel

theorem isEntryName_longName : IsEntryName longName := by
  have hne : ∀ name : String, name.utf8ByteSize ≠ 255 → longName ≠ name := fun name hn he =>
    hn (he ▸ size_longName)
  have hslash : '/' ∉ longName.toList := by simp [longName]
  exact ⟨hne "" (by decide), hne "." (by decide), hne ".." (by decide), hslash,
    Nat.le_of_eq size_longName⟩

theorem isPlain_longName : ∀ n ∈ [longName], Path.IsPlain n := by
  intro n hn
  obtain rfl := List.mem_singleton.1 hn
  obtain ⟨hne, hdot, hup, hslash, -⟩ := isEntryName_longName
  exact ⟨⟨hne, hslash⟩, hdot, hup⟩

/-- A plugin in the innermost of so many directories with long names, with a file that has such a
name too. -/
def remote (depth : Nat) : LoadingContext where
  artifactId := "p"
  root := Path.ofNames ["."]
  files :=
    { entries := nest longName depth ++
        [(List.replicate depth longName ++ [longName], .file .empty)]
      current := List.replicate depth longName
      tree := FileSystem.isTree_append (isTree_nest isEntryName_longName depth)
        (isDirectoryOf_nest _ _) (isEntryName_replicate isEntryName_longName depth)
        (notMem_nest _ _)
      current_directory := (isDirectoryOf_nest _ _).imp_right (List.mem_append_left _) }

theorem entry?_remote (depth : Nat) :
    (remote depth).files.entry? (List.replicate depth longName ++ [longName]) =
      some (.file .empty) :=
  FileSystem.entry?_of_mem (by simp [remote])

theorem denotes_remote (depth : Nat) :
    (remote depth).files.Denotes (remote depth).root (List.replicate depth longName) :=
  FileSystem.denotes_ofNames (by simp) (by decide) (.here .done)

theorem leads_remote (depth : Nat) :
    (remote depth).files.Leads (fun _ => True) 0 (List.replicate depth longName)
      (["."] ++ [longName]) (List.replicate depth longName ++ [longName]) :=
  .here (.file trivial (entry?_remote depth))

theorem pathLength_remote (depth : Nat) :
    Location.pathLength (List.replicate depth longName ++ [longName]) = depth * 256 + 256 := by
  simp [size_longName]

/-- A file too far from the root directory is not found. -/
theorem findResource_remote {depth : Nat} (hd : 15 ≤ depth) :
    (remote depth).findResource (Path.ofNames [longName]) = none := by
  have hdot : ∀ n ∈ ["."], Path.IsName n := by decide
  have hboth : ∀ n ∈ ["."] ++ [longName], Path.IsName n :=
    Path.forall_mem_append hdot (Path.isName_of_isPlain isPlain_longName)
  have hfile := entry?_remote depth
  refine findResource_eq_none (Path.text_ofNames_ne_empty (by simp) hdot) ?_
  rintro place ⟨-, -, used, -, hw⟩
  have hlocation : (remote depth).root / (Path.ofNames [longName]).normal =
      Path.ofNames (["."] ++ [longName]) :=
    Path.join_normal_ofNames (by simp) (by simp) hdot isPlain_longName
  rw [hlocation, FileSystem.start_ofNames (by simp) hboth,
    FileSystem.steps_ofNames (by simp) hboth] at hw
  obtain ⟨-, rfl⟩ := (hw.mono fun _ _ => trivial).unique (leads_remote depth)
  have hnot : (remote depth).files.entry? (List.replicate depth longName ++ [longName]) ≠
      some .directory := by simp [hfile]
  have hpass := hw.passable_target (FileSystem.entry?_above hfile) hnot
  rw [pathLength_remote] at hpass
  have hlimit : FileSystem.pathLimit = 4095 := rfl
  omega

/-- Files that the plugin owns and does not find: behind forty-one links, below a root that is
written with 4095 bytes, and 4096 bytes away from the root directory. -/
theorem findResource_beyond_limits :
    ((Path.ofNames (winding 41)).StaysBelow ∧
      neighbour.files.Denotes (neighbour.root / (Path.ofNames (winding 41)).normal) ["p", "f"] ∧
      neighbour.Owns ["p", "f"] ∧
      neighbour.findResource (Path.ofNames (winding 41)) = none) ∧
    ((dotted 2047).files.Denotes (dotted 2047).root ["p"] ∧
      (dotted 2047).files.entry? (["p"] ++ ["f"]) = some (.file .empty) ∧
      (dotted 2047).findResource (Path.ofNames ["f"]) = none) ∧
    ((remote 15).files.Denotes (remote 15).root (List.replicate 15 longName) ∧
      (remote 15).files.entry? (List.replicate 15 longName ++ [longName]) = some (.file .empty) ∧
      (remote 15).findResource (Path.ofNames [longName]) = none) := by
  refine ⟨⟨?_, ?_, ?_, findResource_winding (by decide)⟩,
    ⟨denotes_dotted 2047, rfl, findResource_dotted (Nat.le_refl _)⟩,
    denotes_remote 15, entry?_remote 15, findResource_remote (Nat.le_refl _)⟩
  · exact Path.staysBelow_ofNames (by simp [winding]) isPlain_winding
  · rw [location_winding]
    exact ⟨Path.text_ofNames_ne_empty (by simp) isName_winding, 41, leads_location_winding 41⟩
  · exact ⟨["p"], .empty, FileSystem.denotes_ofNames (by simp) (by decide) leads_home, by decide,
      rfl⟩

end LoadingContext

end PluginHost
