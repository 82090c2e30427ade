import PluginHost.Plugin
import PluginHost.Proofs.Except
import PluginHost.Proofs.Json.Printing
import PluginHost.Proofs.LoadingContext.Slashes

/-!
# Plugins of directories

A plugin that is assembled from a directory has a name, and knows its own files under it.  Name and
describer are those of the descriptor that the plugin ships, and without one the plugin is named
after its directory.  Slashes behind the directory make no difference, as long as the paths of what
is found do not get too long (`Plugin.ofDirectory_named`).
-/

namespace PluginHost

/-! ### Outcomes of one kind -/

/-- Whether two errors are of one kind, whatever they name. -/
def ConfigurationError.Kind.Same : Kind → Kind → Prop
  | .general, .general => True
  | .loading, .loading => True
  | .parameter _, .parameter _ => True
  | .definition _, .definition _ => True
  | .manifest _, .manifest _ => True
  | _, _ => False

/-- Whether two failures are of one kind, whatever their wording. -/
def Failure.SameKind : Failure → Failure → Prop
  | .configuration e, .configuration e' => e.kind.Same e'.kind
  | .json fault, .json fault' => fault = fault'
  | .invalidArgument _, .invalidArgument _ => True
  | .runtime _, .runtime _ => True
  | .fileSystem _, .fileSystem _ => True
  | _, _ => False

/-- Whether two outcomes agree: both are failures of one kind, or values that are related. -/
def OutcomesAgree {α : Type} (related : α → α → Prop) :
    Except Failure α → Except Failure α → Prop
  | .ok a, .ok b => related a b
  | .error e, .error e' => e.SameKind e'
  | _, _ => False

theorem OutcomesAgree.bind {α β : Type} {related : α → α → Prop} {related' : β → β → Prop}
    {x y : Except Failure α} {f g : α → Except Failure β} (h : OutcomesAgree related x y)
    (hnext : ∀ a b, related a b → OutcomesAgree related' (f a) (g b)) :
    OutcomesAgree related' (x >>= f) (y >>= g) := by
  cases x <;> cases y
  · exact h
  · exact h.elim
  · exact h.elim
  · exact hnext _ _ h

theorem OutcomesAgree.exists_of_ok {α : Type} {related : α → α → Prop} {a : α}
    {y : Except Failure α} (h : OutcomesAgree related (.ok a) y) :
    ∃ b, y = .ok b ∧ related a b := by
  cases y with
  | error e => exact h.elim
  | ok b => exact ⟨b, rfl, h⟩

/-! ### Descriptors -/

namespace Descriptor

variable {content : ByteArray} {source : String} {d : Descriptor} {files : FileSystem}
  {path : Path}

theorem parse_eq_ok_iff :
    parse content source = .ok d ↔
      ∃ j, Json.read content = .ok j ∧ ofJson j = .ok d ∧ d.name ≠ "" := by
  unfold parse
  split
  · next j hread =>
    simp only [hread, Except.ok.injEq, exists_eq_left']
    unfold ofDocument
    split
    · next hj => simp [hj]
    · next d' hj =>
      by_cases hname : d'.name = ""
      · simp only [hj, hname, if_true, reduceCtorEq, Except.ok.injEq, false_iff, not_and, not_not]
        rintro rfl
        exact hname
      · simp only [hj, hname, if_false, Except.ok.injEq]
        constructor
        · rintro rfl
          exact ⟨rfl, hname⟩
        · exact And.left
  · next hread => simp [hread]
  · next fault _ hread => simp [hread]

/-- What content is read as does not depend on where it came from, nor does the kind of a
failure. -/
theorem parse_agree (content : ByteArray) (source source' : String) :
    OutcomesAgree Eq (parse content source) (parse content source') := by
  unfold parse
  split
  · next j _ =>
    unfold ofDocument
    split
    · trivial
    · split
      · trivial
      · rfl
  · trivial
  · rfl

theorem read_of_read? (h : files.read? path = some content) :
    read files path = parse content path.text := by
  unfold read
  rw [h]

end Descriptor

namespace Plugin

variable {files : FileSystem} {root location : Path} {config : Config} {content : ByteArray}
  {p : Plugin}

theorem ofDirectory_eq_ok_iff :
    ofDirectory files root config = .ok p ↔
      ∃ d, ∃ named : d.name ≠ "", describe files root config = .ok d ∧
        p = { descriptor := d, files := { artifactId := d.name, root, files }, named } := by
  unfold ofDirectory
  rw [bind_eq_ok_iff]
  refine exists_congr fun d => ?_
  unfold make
  by_cases hd : d.name = ""
  · simp [hd]
  · simp [hd, eq_comm]

/-! ### Name and describer -/

/-- What is seen of a plugin before it has a name. -/
def probe (files : FileSystem) (root : Path) : LoadingContext where
  artifactId := root.lastName
  root := root
  files := files

theorem describe_of_found
    (h : (probe files root).findResource ⟨config.descriptorPath⟩ = some location)
    (hread : files.read? location = some content) :
    describe files root config = Descriptor.parse content location.text := by
  unfold describe
  unfold probe at h
  simp only [h]
  exact Descriptor.read_of_read? hread

theorem describe_of_not_found
    (h : (probe files root).findResource ⟨config.descriptorPath⟩ = none) :
    describe files root config = .ok { name := root.lastName } := by
  unfold describe
  unfold probe at h
  simp only [h]

/-- A plugin without a descriptor of its own is named after its directory, unless its root is empty
and keeps nothing out. -/
theorem describe_of_not_ships
    (h : ∀ content, ¬ (probe files root).Ships ⟨config.descriptorPath⟩ content)
    (hstays : root.text = "" →
      ¬ (probe files root).LeadsOut files.current ⟨config.descriptorPath⟩) :
    describe files root config = .ok { name := root.lastName } := by
  cases hfound : (probe files root).findResource ⟨config.descriptorPath⟩ with
  | none => exact describe_of_not_found hfound
  | some location =>
    obtain ⟨content, hships⟩ := LoadingContext.exists_ships_of_findResource hfound hstays
    exact absurd hships (h content)

/-- What a plugin is that was assembled from a directory: its files are known under its name, and it
is what a descriptor of its own says, or named after the directory if it ships none.  If the root
is empty, nothing is said about a descriptor outside the directory. -/
structure IsOf (files : FileSystem) (root : Path) (config : Config) (p : Plugin) : Prop where
  name_ne_empty : p.name ≠ ""
  files_eq : p.files = { artifactId := p.name, root, files }
  described : ∀ content, (probe files root).Ships ⟨config.descriptorPath⟩ content →
    ∃ j, Json.read content = .ok j ∧ Descriptor.ofJson j = .ok p.descriptor
  undescribed : (∀ content, ¬ (probe files root).Ships ⟨config.descriptorPath⟩ content) →
    (root.text = "" → ¬ (probe files root).LeadsOut files.current ⟨config.descriptorPath⟩) →
    root.IsLastComponent p.name ∧ p.name = (root / (⟨""⟩ : Path)).parent.fileName ∧
      p.descriptor.describer = none

theorem isOf_of_ofDirectory (hp : ofDirectory files root config = .ok p) :
    p.IsOf files root config := by
  obtain ⟨d, named, hdescribe, rfl⟩ := ofDirectory_eq_ok_iff.1 hp
  refine ⟨named, rfl, fun content hships => ?_, fun hnot hstays => ?_⟩
  · obtain ⟨hfound, hread⟩ := hships.findResource
    rw [describe_of_found hfound hread] at hdescribe
    obtain ⟨j, hj, hd, -⟩ := Descriptor.parse_eq_ok_iff.1 hdescribe
    exact ⟨j, hj, hd⟩
  · rw [describe_of_not_ships hnot hstays] at hdescribe
    obtain rfl := Except.ok.inj hdescribe
    exact ⟨Path.isLastComponent_iff.2 rfl, root.fileName_parent_join_empty.symm, rfl⟩

theorem IsOf.findResource_eq (h : p.IsOf files root config) (resource : Path) :
    p.files.findResource resource = (probe files root).findResource resource := by
  rw [h.files_eq]
  rfl

/-! ### More slashes -/

section Slashes

variable (slashes : Nat)

theorem probe_withSlashes (files : FileSystem) (root : Path) :
    probe files (root.withSlashes slashes) = (probe files root).withSlashes slashes := by
  unfold probe
  rw [Path.lastName_withSlashes]
  rfl

variable (hroot : root.endsInName = true)

include hroot

theorem describe_withSlashes
    (h : (probe files root).HasRoom ⟨config.descriptorPath⟩ (slashes - 1)) :
    OutcomesAgree Eq (describe files root config)
      (describe files (root.withSlashes slashes) config) := by
  cases hfound : (probe files root).findResource ⟨config.descriptorPath⟩ with
  | none =>
    have hmore := LoadingContext.findResource_withSlashes_eq_none (probe files root) hroot slashes
      (.inl hfound)
    rw [← probe_withSlashes] at hmore
    rw [describe_of_not_found hfound, describe_of_not_found hmore, Path.lastName_withSlashes]
    exact rfl
  | some location =>
    obtain ⟨more, place, content, hmore, hreach, hreachMore, hfile⟩ :=
      LoadingContext.exists_reaches_withSlashes (probe files root) hroot slashes h hfound
    rw [← probe_withSlashes] at hmore
    rw [describe_of_found hfound (FileSystem.read?_of_reaches hreach hfile),
      describe_of_found hmore (FileSystem.read?_of_reaches hreachMore hfile)]
    exact Descriptor.parse_agree content location.text more.text

/-- **Slashes behind its directory make no difference to a plugin**, if there is room for them in
the path of its descriptor. -/
theorem ofDirectory_withSlashes
    (h : (probe files root).HasRoom ⟨config.descriptorPath⟩ (slashes - 1)) :
    OutcomesAgree (fun p q => q.descriptor = p.descriptor) (ofDirectory files root config)
      (ofDirectory files (root.withSlashes slashes) config) := by
  unfold ofDirectory
  refine (describe_withSlashes slashes hroot h).bind ?_
  rintro d _ rfl
  unfold make
  by_cases hd : d.name = ""
  · simp only [hd, dite_true]
    trivial
  · simp only [hd, dite_false]
    rfl

/-- Behind too many slashes a plugin loses its descriptor. -/
theorem ofDirectory_withSlashes_of_not_hasRoom
    (h : ¬ (probe files root).HasRoom ⟨config.descriptorPath⟩ (slashes - 1)) :
    ∃ q, ofDirectory files (root.withSlashes slashes) config = .ok q ∧
      q.descriptor = { name := root.lastName } := by
  have hnone := LoadingContext.findResource_withSlashes_eq_none (probe files root) hroot slashes
    (.inr h)
  rw [← probe_withSlashes] at hnone
  have hdescribe := describe_of_not_found hnone
  rw [Path.lastName_withSlashes] at hdescribe
  have hplugin := ofDirectory_eq_ok_iff.2 ⟨_, Path.lastName_ne_empty hroot, hdescribe, rfl⟩
  exact ⟨_, hplugin, rfl⟩

theorem findAlike_of_ofDirectory {q : Plugin} (hp : ofDirectory files root config = .ok p)
    (hq : ofDirectory files (root.withSlashes slashes) config = .ok q) (resource : Path) :
    ((probe files root).HasRoom resource (slashes - 1) →
      LoadingContext.FindAlike p.files q.files resource) ∧
    (¬ (probe files root).HasRoom resource (slashes - 1) →
      q.files.findResource resource = none) := by
  constructor
  · intro hroom
    rw [(isOf_of_ofDirectory hp).files_eq, (isOf_of_ofDirectory hq).files_eq]
    exact LoadingContext.findAlike_withSlashes (probe files root) hroot slashes hroom
  · intro hroom
    rw [(isOf_of_ofDirectory hq).findResource_eq, probe_withSlashes]
    exact LoadingContext.findResource_withSlashes_eq_none (probe files root) hroot slashes
      (.inr hroom)

end Slashes

/-! ### Plugins of directories -/

/-- **A plugin is what its descriptor says**, and named after its directory without one; its files
are known under its name.  Slashes behind the directory make no difference, as far as there is room
for them in the paths of what is found: then both roots give the same descriptor and the same files,
or fail in one way.  If there is no room for them in the path of the descriptor, the plugin is one
without, and other files are not found, either.  There is always room for one slash. -/
theorem ofDirectory_named (files : FileSystem) (root : Path) (config : Config) :
    (∀ p, ofDirectory files root config = .ok p → p.IsOf files root config) ∧
    (root.endsInName = true → ∀ slashes,
      ((probe files root).HasRoom ⟨config.descriptorPath⟩ (slashes - 1) →
        OutcomesAgree (fun p q => q.descriptor = p.descriptor) (ofDirectory files root config)
          (ofDirectory files (root.withSlashes slashes) config)) ∧
      (¬ (probe files root).HasRoom ⟨config.descriptorPath⟩ (slashes - 1) →
        ∃ q, ofDirectory files (root.withSlashes slashes) config = .ok q ∧
          root.IsLastComponent q.name ∧ q.descriptor.describer = none) ∧
      (∀ p q, ofDirectory files root config = .ok p →
        ofDirectory files (root.withSlashes slashes) config = .ok q → ∀ resource,
          ((probe files root).HasRoom resource (slashes - 1) →
            LoadingContext.FindAlike p.files q.files resource) ∧
          (¬ (probe files root).HasRoom resource (slashes - 1) →
            q.files.findResource resource = none)) ∧
      (slashes ≤ 1 → ∀ resource, (probe files root).HasRoom resource (slashes - 1))) := by
  refine ⟨fun p => isOf_of_ofDirectory, fun hroot slashes =>
    ⟨ofDirectory_withSlashes slashes hroot, fun h => ?_,
      fun p q => findAlike_of_ofDirectory slashes hroot, fun hslashes resource => ?_⟩⟩
  · obtain ⟨q, hq, hdescriptor⟩ := ofDirectory_withSlashes_of_not_hasRoom slashes hroot h
    refine ⟨q, hq, Path.isLastComponent_iff.2 (congrArg Descriptor.name hdescriptor), ?_⟩
    rw [hdescriptor]
  · rw [Nat.sub_eq_zero_of_le hslashes]
    exact LoadingContext.hasRoom_zero _ resource

/-! ### A plugin with another name than its directory -/

/-- A descriptor. -/
def renamingForm : Json := .object [("name", .string "q")]

theorem read_renamingForm : Json.read renamingForm.print.toUTF8 = .ok renamingForm := by
  refine Json.read_print (.object (List.pairwise_singleton _ _) fun m hm => ?_)
  obtain rfl := List.mem_singleton.1 hm
  exact .string "q"

/-- A directory with the descriptor. -/
def renamed : FileSystem where
  entries := [(["p"], .directory), (["p", "META-INF"], .directory),
    (["p", "META-INF", "plugin.json"], .file renamingForm.print.toUTF8)]
  current := []
  tree := ⟨by simp, by decide, by decide⟩
  current_directory := Or.inl rfl

theorem findResource_renamed : (probe renamed ⟨"p"⟩).findResource ⟨"META-INF/plugin.json"⟩ =
    some ⟨"p/META-INF/plugin.json"⟩ := by
  decide +kernel

theorem ofDirectory_renamed :
    ∃ p, ofDirectory renamed ⟨"p"⟩ {} = .ok p ∧ p.descriptor = { name := "q" } := by
  have hread : renamed.read? ⟨"p/META-INF/plugin.json"⟩ = some renamingForm.print.toUTF8 := rfl
  have hdescribe : describe renamed ⟨"p"⟩ {} = _ := describe_of_found findResource_renamed hread
  rw [Descriptor.parse_eq_ok_iff.2 ⟨renamingForm, read_renamingForm, rfl, by decide⟩] at hdescribe
  have hplugin := ofDirectory_eq_ok_iff.2 ⟨_, by decide, hdescribe, rfl⟩
  exact ⟨_, hplugin, rfl⟩

theorem ships_renamed :
    (probe renamed ⟨"p"⟩).Ships ⟨"META-INF/plugin.json"⟩ renamingForm.print.toUTF8 := by
  have hcandidate : (probe renamed ⟨"p"⟩).candidate ⟨"META-INF/plugin.json"⟩ =
      ⟨"p/META-INF/plugin.json"⟩ := by decide +kernel
  have hhome : renamed.Reaches ⟨"p"⟩ ["p"] := FileSystem.reaches_iff.2 ⟨by decide, rfl⟩
  have hfile : renamed.Reaches ⟨"p/META-INF/plugin.json"⟩ ["p", "META-INF", "plugin.json"] :=
    FileSystem.reaches_iff.2 ⟨by decide, rfl⟩
  refine ⟨by decide +kernel, ["p"], _, ⟨rfl, .inr hhome.denotes⟩, ?_,
    ⟨["META-INF", "plugin.json"], rfl⟩, rfl⟩
  rw [hcandidate]
  exact hfile

/-- The plugin has the name in its descriptor, also behind two slashes, where it finds the
descriptor at the same place.  A directory in it is a plugin without a descriptor, under its own
name. -/
theorem ofDirectory_named_renamed :
    (∃ p q, ofDirectory renamed ⟨"p"⟩ {} = .ok p ∧ ofDirectory renamed ⟨"p//"⟩ {} = .ok q ∧
      p.name = "q" ∧ q.name = "q" ∧
      LoadingContext.FindAlike p.files q.files ⟨"META-INF/plugin.json"⟩) ∧
    ∃ p, ofDirectory renamed ⟨"p/META-INF/"⟩ {} = .ok p ∧ p.name = "META-INF" ∧
      p.descriptor.describer = none := by
  constructor
  · obtain ⟨p, hp, -⟩ := ofDirectory_renamed
    obtain ⟨hplugin, hslashes⟩ := ofDirectory_named renamed ⟨"p"⟩ {}
    have hroom : (probe renamed ⟨"p"⟩).HasRoom ⟨"META-INF/plugin.json"⟩ (2 - 1) := by
      intro location hfound
      obtain rfl := Option.some.inj (findResource_renamed.symm.trans hfound)
      decide
    obtain ⟨hagree, -, hfiles, -⟩ := hslashes (by decide) 2
    have hagree := hagree hroom
    rw [hp] at hagree
    obtain ⟨q, hq, hsame⟩ := hagree.exists_of_ok
    obtain ⟨j, hj, hd⟩ := (hplugin p hp).described _ ships_renamed
    obtain rfl := Except.ok.inj (read_renamingForm.symm.trans hj)
    have hdescriptor : ({ name := "q" } : Descriptor) = p.descriptor := Except.ok.inj hd
    have hname : p.name = "q" := congrArg Descriptor.name hdescriptor.symm
    exact ⟨p, q, hp, hq, hname, (congrArg Descriptor.name hsame).trans hname,
      (hfiles p q hp hq _).1 hroom⟩
  · have hnone : (probe renamed ⟨"p/META-INF/"⟩).findResource ⟨"META-INF/plugin.json"⟩ = none := by
      decide +kernel
    have hdescribe : describe renamed ⟨"p/META-INF/"⟩ {} = _ := describe_of_not_found hnone
    have hplugin := ofDirectory_eq_ok_iff.2 ⟨_, by decide, hdescribe, rfl⟩
    have his := (ofDirectory_named renamed ⟨"p/META-INF/"⟩ {}).1 _ hplugin
    obtain ⟨hname, -, hdescriber⟩ := his.undescribed
      (fun content hships => nomatch hnone.symm.trans hships.findResource.1)
      (fun hempty => absurd hempty (by decide))
    exact ⟨_, hplugin, hname.eq_lastName, hdescriber⟩

/-- Behind so many slashes that the path of its descriptor gets too long, the plugin is named after
its directory, and does not find the descriptor. -/
theorem ofDirectory_renamed_beyond_limit :
    (⟨"p"⟩ : Path).endsInName = true ∧
    ∃ p q, ofDirectory renamed ⟨"p"⟩ {} = .ok p ∧
      ofDirectory renamed ((⟨"p"⟩ : Path).withSlashes 4075) {} = .ok q ∧
      p.name = "q" ∧ q.name = "p" ∧
      ¬ LoadingContext.FindAlike p.files q.files ⟨"META-INF/plugin.json"⟩ := by
  have hroot : (⟨"p"⟩ : Path).endsInName = true := by decide
  have hroom : ¬ (probe renamed ⟨"p"⟩).HasRoom ⟨"META-INF/plugin.json"⟩ (4075 - 1) := by
    intro h
    exact absurd (h _ findResource_renamed) (by decide)
  obtain ⟨p, hp, hdescriptor⟩ := ofDirectory_renamed
  obtain ⟨q, hq, hdescriptor'⟩ : ∃ q, ofDirectory renamed _ {} = .ok q ∧ _ :=
    ofDirectory_withSlashes_of_not_hasRoom 4075 hroot hroom
  refine ⟨hroot, p, q, hp, hq, congrArg Descriptor.name hdescriptor,
    congrArg Descriptor.name hdescriptor', ?_⟩
  have hfound := (isOf_of_ofDirectory hp).findResource_eq ⟨"META-INF/plugin.json"⟩
  rw [findResource_renamed] at hfound
  have hnone := (findAlike_of_ofDirectory 4075 hroot hp hq _).2 hroom
  rintro (⟨hnothing, -⟩ | ⟨place, content, -, ⟨location, hlocation, -⟩, -⟩)
  · exact nomatch hfound.symm.trans hnothing
  · exact nomatch hnone.symm.trans hlocation

end Plugin

end PluginHost
