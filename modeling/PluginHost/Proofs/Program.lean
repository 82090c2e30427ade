import PluginHost.Program
import PluginHost.Proofs.Deployment
import PluginHost.Proofs.Discovery.History
import PluginHost.Proofs.Extension.Fingerprint
import PluginHost.Proofs.Library.Linker
import PluginHost.Proofs.Library.Scan
import PluginHost.Proofs.Plugin

/-!
# What the program prints, and when

A run of the program goes through stages: it reads the configuration, fills the repository, takes
the directories of the artifact as plugins and discovers their extensions.  It exits with 0
exactly if all stages succeed (`Program.exitCode_eq_zero_iff`).  Only then is there anything on
the standard output, and that is the listing of what was discovered
(`Program.run_prints_discovered`).  A file that cannot be read and a log level that is not known
are failures of the first stage (`Program.configure_fails_iff`).
-/

namespace PluginHost

/-! ### Configurations -/

theorem Config.read_eq_ok_iff {files : FileSystem} {path : Path} {config : Config} :
    Config.read files path = .ok config ↔ ∃ content j, files.status path = .ok (.file content) ∧
      Json.read content = .ok j ∧ Config.ofJson j = .ok config := by
  constructor
  · intro h
    unfold read at h
    split at h
    · next content hfile =>
      split at h
      · next j hread => exact ⟨content, j, hfile, hread, h⟩
      · cases h
      · cases h
    · cases h
    · cases h
  · rintro ⟨content, j, hfile, hread, hj⟩
    unfold read
    simp only [hfile, hread, hj]

theorem LogLevel.ofName_eq_ok_iff {name : String} {level : LogLevel} :
    LogLevel.ofName name = .ok level ↔ LogLevel.ofName? name = some level := by
  unfold LogLevel.ofName
  cases LogLevel.ofName? name <;> simp

namespace Program

variable {files : FileSystem} {linker : Linker} {artifact : Path} {config : Config}

/-! ### The stages of a run -/

/-- The discovery of the program. -/
def discovery (config : Config) (repository : Repository) : Discovery where
  repository := repository
  adapter := { builtin := Loader.native }
  manifestPath := config.manifestPath

/-- The stages of a run, all of which succeed. -/
structure Stages (files : FileSystem) (linker : Linker) (artifact : Path)
    (file : Option String) where
  config : Config
  level : LogLevel
  repository : Repository
  report : ScanReport
  roots : List Path
  plugins : List Plugin
  found : Findings
  configured : configure files file = .ok (config, level)
  booted : (boot files linker config).outcome = .ok (repository, report)
  listed : pluginRoots files artifact = .ok roots
  assembled : roots.mapM (fun root => Plugin.ofDirectory files root config) = .ok plugins
  discovered : ((discovery config repository).run plugins).outcome = .ok found

theorem plugins_eq_ok_iff {plugins : List Plugin} :
    Program.plugins files artifact config = .ok plugins ↔
      ∃ roots, pluginRoots files artifact = .ok roots ∧
        roots.mapM (fun root => Plugin.ofDirectory files root config) = .ok plugins :=
  bind_eq_ok_iff

/-- Deploying with a new manager succeeds exactly if discovery does, and lists what it found. -/
theorem outcome_create_eq_ok_iff {plugins : List Plugin} {repository : Repository} {m : Manager} :
    (Deployment.create { plugins, repository, factory := .standard, config }).result.outcome =
        .ok m ↔
      ∃ f, ((discovery config repository).run plugins).outcome = .ok f ∧
        m = Manager.registerAll ∅ f.extensions.toList := by
  have hfactory : ManagerFactory.standard.outcome = .ok (some ∅) := rfl
  have hdiscover : (Deployment.discover
      { plugins, repository, factory := .standard, config }).outcome =
        ((discovery config repository).run plugins).outcome :=
    Traced.outcome_bind_of_ok _ rfl
  cases hf : ((discovery config repository).run plugins).outcome with
  | error failure =>
    have hfail := (Deployment.create_of_error hfactory (hdiscover.trans hf)).2
    simp [hfail]
  | ok f =>
    have hdone := (Deployment.create_of_ok hfactory (hdiscover.trans hf)).2
    simp [hdone, eq_comm]

theorem outcome_deploy_eq_ok_iff {repository : Repository} {m : Manager} :
    (deploy files artifact config repository).outcome = .ok m ↔
      ∃ plugins, Program.plugins files artifact config = .ok plugins ∧
        ∃ f, ((discovery config repository).run plugins).outcome = .ok f ∧
          m = Manager.registerAll ∅ f.extensions.toList := by
  unfold deploy
  rw [Traced.outcome_bind_eq_ok_iff]
  simp only [Traced.outcome_ofExcept, outcome_create_eq_ok_iff]

/-! ### How a run ends -/

variable {rest : List String}

/-- What is left of a run once the configuration is read. -/
def deployed (files : FileSystem) (linker : Linker) (artifact : Path) (config : Config) :
    Traced Manager := do
  let (repository, _) ← boot files linker config
  deploy files artifact config repository

theorem runWith_of_ok {artifact : String} {m : Manager} (level : LogLevel)
    (h : (deployed files linker ⟨artifact⟩ config).outcome = .ok m) :
    (runWith files linker artifact config level).exitCode = 0 ∧
      (runWith files linker artifact config level).output = listing artifact m := by
  unfold deployed at h
  unfold runWith
  dsimp only
  rw [h]
  exact ⟨rfl, rfl⟩

theorem runWith_of_error {artifact : String} {failure : Failure} (level : LogLevel)
    (h : (deployed files linker ⟨artifact⟩ config).outcome = .error failure) :
    (runWith files linker artifact config level).exitCode = 1 ∧
      (runWith files linker artifact config level).output = "" := by
  unfold deployed at h
  unfold runWith
  dsimp only
  rw [h]
  exact ⟨rfl, rfl⟩

theorem outcome_deployed_eq_ok_iff {m : Manager} :
    (deployed files linker artifact config).outcome = .ok m ↔
      ∃ repository report, (boot files linker config).outcome = .ok (repository, report) ∧
        ∃ plugins, Program.plugins files artifact config = .ok plugins ∧
          ∃ f, ((discovery config repository).run plugins).outcome = .ok f ∧
            m = Manager.registerAll ∅ f.extensions.toList := by
  unfold deployed
  rw [Traced.outcome_bind_eq_ok_iff]
  simp only [Prod.exists, outcome_deploy_eq_ok_iff]

theorem run_cons (program artifact : String) (files : FileSystem) (linker : Linker)
    (rest : List String) :
    run program files linker (artifact :: rest) =
      match configure files rest.head? with
      | .error failure => { exitCode := 1, errors := report failure }
      | .ok (config, level) => runWith files linker artifact config level := rfl

/-- A run whose stages all succeed exits with 0 and lists what was discovered. -/
theorem Stages.run_eq {artifact : String} (s : Stages files linker ⟨artifact⟩ rest.head?)
    (program : String) :
    (run program files linker (artifact :: rest)).exitCode = 0 ∧
      (run program files linker (artifact :: rest)).output =
        String.join (s!"Extensions of {artifact}:\n" :: s.found.extensions.toList.map line) := by
  have hdeployed : (deployed files linker ⟨artifact⟩ s.config).outcome =
      .ok (Manager.registerAll ∅ s.found.extensions.toList) :=
    outcome_deployed_eq_ok_iff.2 ⟨s.repository, s.report, s.booted, s.plugins,
      plugins_eq_ok_iff.2 ⟨s.roots, s.listed, s.assembled⟩, s.found, s.discovered, rfl⟩
  obtain ⟨hexit, houtput⟩ := runWith_of_ok s.level hdeployed
  rw [run_cons, s.configured]
  refine ⟨hexit, houtput.trans ?_⟩
  rw [listing, Deployment.toList_registerAll_empty]

/-- Any other run exits with 1 and prints nothing. -/
theorem run_of_isEmpty_stages {artifact : String}
    (h : IsEmpty (Stages files linker ⟨artifact⟩ rest.head?)) (program : String) :
    (run program files linker (artifact :: rest)).exitCode = 1 ∧
      (run program files linker (artifact :: rest)).output = "" := by
  rw [run_cons]
  cases hconfigure : configure files rest.head? with
  | error failure => exact ⟨rfl, rfl⟩
  | ok configured =>
    obtain ⟨config, level⟩ := configured
    cases hdeployed : (deployed files linker ⟨artifact⟩ config).outcome with
    | error failure => exact runWith_of_error level hdeployed
    | ok m =>
      obtain ⟨repository, report, hboot, plugins, hplugins, f, hf, -⟩ :=
        outcome_deployed_eq_ok_iff.1 hdeployed
      obtain ⟨roots, hroots, hassembled⟩ := plugins_eq_ok_iff.1 hplugins
      exact h.elim ⟨config, level, repository, report, roots, plugins, f, hconfigure, hboot,
        hroots, hassembled, hf⟩

/-- **A run exits with 0** exactly if all its stages succeed. -/
theorem exitCode_eq_zero_iff (program artifact : String) :
    (run program files linker (artifact :: rest)).exitCode = 0 ↔
      Nonempty (Stages files linker ⟨artifact⟩ rest.head?) := by
  rcases isEmpty_or_nonempty (Stages files linker ⟨artifact⟩ rest.head?) with h | ⟨⟨s⟩⟩
  · simp [(run_of_isEmpty_stages h program).1, h]
  · exact iff_of_true (s.run_eq program).1 ⟨s⟩

/-! ### The configuration of a run -/

/-- Whether a configuration is the one that a run goes by: the default one, or the one in the file
that was named. -/
inductive Chosen (files : FileSystem) : Option String → Config → Prop
  | defaults : Chosen files none {}
  | file {path : String} {content : ByteArray} {j : Json} {config : Config}
      (opened : files.status ⟨path⟩ = .ok (.file content)) (read : Json.read content = .ok j)
      (choices : Config.ofJson j = .ok config) : Chosen files (some path) config

variable {file : Option String} {level : LogLevel}

theorem chosen_some_iff {path : String} :
    Chosen files (some path) config ↔ Config.read files ⟨path⟩ = .ok config := by
  rw [Config.read_eq_ok_iff]
  constructor
  · rintro (_ | ⟨hopened, hread, hchoices⟩)
    exact ⟨_, _, hopened, hread, hchoices⟩
  · rintro ⟨content, j, hopened, hread, hchoices⟩
    exact .file hopened hread hchoices

theorem configure_eq_ok_iff :
    configure files file = .ok (config, level) ↔
      Chosen files file config ∧ LogLevel.ofName? config.logLevel = some level := by
  have hlevel : ∀ c : Config, (do return (c, ← LogLevel.ofName c.logLevel)) =
      (.ok (config, level) : Except Failure (Config × LogLevel)) ↔
        c = config ∧ LogLevel.ofName? c.logLevel = some level := by
    intro c
    rw [← LogLevel.ofName_eq_ok_iff]
    cases LogLevel.ofName c.logLevel <;> simp [bind, Except.bind, pure, Except.pure]
  cases file with
  | none =>
    refine (hlevel {}).trans ⟨?_, ?_⟩
    · rintro ⟨rfl, h⟩
      exact ⟨.defaults, h⟩
    · rintro ⟨⟨⟩, h⟩
      exact ⟨rfl, h⟩
  | some path =>
    refine bind_eq_ok_iff.trans ?_
    simp only [hlevel, chosen_some_iff]
    constructor
    · rintro ⟨_, hread, rfl, h⟩
      exact ⟨hread, h⟩
    · rintro ⟨hread, h⟩
      exact ⟨config, hread, rfl, h⟩

/-- **A configuration fails** exactly if its file cannot be read as one, or its log level is not
known. -/
theorem configure_fails_iff :
    (∃ failure, configure files file = .error failure) ↔
      ∀ config, Chosen files file config → LogLevel.ofName? config.logLevel = none := by
  constructor
  · rintro ⟨failure, h⟩ config hchosen
    by_contra hlevel
    obtain ⟨level, hlevel⟩ := Option.ne_none_iff_exists'.1 hlevel
    cases h.symm.trans (configure_eq_ok_iff.2 ⟨hchosen, hlevel⟩)
  · intro h
    cases hconfigure : configure files file with
    | error failure => exact ⟨failure, rfl⟩
    | ok configured =>
      obtain ⟨hchosen, hlevel⟩ := configure_eq_ok_iff.1 hconfigure
      cases (h _ hchosen).symm.trans hlevel

/-! ### The plugins of a run -/

theorem isPluginRoot_eq_true_iff {e : FileSystem.Listed} :
    (isPluginRoot files e).toOption = some true ↔ files.statusOf e = .ok .directory := by
  unfold isPluginRoot
  cases files.statusOf e with
  | error error => cases error <;> simp [Except.toOption]
  | ok entry => cases entry <;> simp [Except.toOption]

/-- The plugins are the directories among the entries of the artifact's own, if all of these can
be told. -/
theorem pluginRoots_eq_ok_iff {roots : List Path} :
    pluginRoots files artifact = .ok roots ↔ ∃ entries, files.list artifact = .ok entries ∧
      (∀ e ∈ entries, ∃ b, isPluginRoot files e = .ok b) ∧
      roots = Path.sort ((entries.filter fun e =>
        (isPluginRoot files e).toOption = some true).map (·.path)) := by
  unfold pluginRoots
  cases files.list artifact with
  | error e => simp
  | ok entries =>
    simp only [Except.ok.injEq, exists_eq_left']
    rw [bind_eq_ok_iff]
    constructor
    · rintro ⟨kept, hkept, hroots⟩
      obtain ⟨htests, rfl⟩ := filterM_eq_ok_iff.1 hkept
      exact ⟨htests, (Except.ok.inj hroots).symm⟩
    · rintro ⟨htests, rfl⟩
      exact ⟨_, filterM_eq_ok_iff.2 ⟨htests, rfl⟩, rfl⟩

/-- **The directories of the plugins** are those that the artifact's directory lists, in
ascending order. -/
theorem pluginRoots_spec {roots : List Path} (h : pluginRoots files artifact = .ok roots) :
    roots.Pairwise (fun p q => p.before q = true) ∧
      ∃ entries, files.list artifact = .ok entries ∧ ∀ path, path ∈ roots ↔
        ∃ e ∈ entries, e.path = path ∧ files.statusOf e = .ok .directory := by
  obtain ⟨entries, hlist, -, rfl⟩ := pluginRoots_eq_ok_iff.1 h
  refine ⟨?_, entries, hlist, fun path => ?_⟩
  · exact Path.pairwise_before_sort
      (FileSystem.nodup_parts_filter (FileSystem.nodup_parts_list hlist) _)
  · rw [(Path.sort_perm _).mem_iff, List.mem_map]
    constructor
    · rintro ⟨e, he, rfl⟩
      obtain ⟨hmem, hroot⟩ := List.mem_filter.1 he
      exact ⟨e, hmem, rfl, isPluginRoot_eq_true_iff.1 (of_decide_eq_true hroot)⟩
    · rintro ⟨e, hmem, rfl, hdirectory⟩
      exact ⟨e, List.mem_filter.2 ⟨hmem, decide_eq_true (isPluginRoot_eq_true_iff.2 hdirectory)⟩,
        rfl⟩

/-! ### The loaders of a run -/

/-- The repository with the built-in loader. -/
def builtin : Repository := Repository.putEach ∅ [Loader.native]

theorem find?_builtin {id : String} {loader : Loader} :
    builtin.find? id = some loader ↔ id = Loader.native.id ∧ loader = Loader.native := by
  have hempty : (∅ : Repository).find? id = none := rfl
  show (Repository.put ∅ Loader.native).find? id = some loader ↔ _
  rw [Repository.find?_put, hempty]
  by_cases hid : id = Loader.native.id <;> simp [hid, eq_comm]

/-- Filling the repository never fails: it gets the built-in loader and what the libraries
add. -/
theorem outcome_boot_eq_ok_iff {repository : Repository} {report : ScanReport} :
    (boot files linker config).outcome = .ok (repository, report) ↔
      ∃ next, (Library.scan files linker config.libraryDirectories builtin).outcome =
        .ok (next, report) ∧ repository = next.close := by
  have hregister : (Repository.register ∅ (some Loader.native)).outcome = .ok builtin := rfl
  unfold boot
  rw [Traced.outcome_bind_of_ok _ hregister, Traced.outcome_bind_eq_ok_iff]
  constructor
  · rintro ⟨⟨next, scanned⟩, hscan, hclose⟩
    obtain ⟨rfl, rfl⟩ := Prod.mk.inj (Except.ok.inj hclose)
    exact ⟨next, hscan, rfl⟩
  · rintro ⟨next, hscan, rfl⟩
    exact ⟨(next, report), hscan, rfl⟩

/-! ### A run as a whole -/

/-- Whether stages are those of a deployment of the artifact: the configuration could be read and
names a level of the log, the directories of the artifact are the plugins, in ascending order, the
loaders are the built-in one and those of the libraries that the scan loaded, and the extensions
are listed by ascending name. -/
structure Stages.Covers {file : Option String} (s : Stages files linker artifact file) : Prop where
  configured : Chosen files file s.config ∧ LogLevel.ofName? s.config.logLevel = some s.level
  ascending : (s.found.extensions.toList.map (·.name)).Pairwise (· < ·)
  extensions : ∀ e, e ∈ s.found.extensions.toList ↔ s.found.extensions.find? e.name = some e
  sorted : s.roots.Pairwise fun p q => p.before q = true
  directories : ∃ entries, files.list artifact = .ok entries ∧ ∀ path, path ∈ s.roots ↔
    ∃ e ∈ entries, e.path = path ∧ files.statusOf e = .ok .directory
  plugins : List.Forall₂ (fun root p => Plugin.ofDirectory files root s.config = .ok p)
    s.roots s.plugins
  isSealed : s.repository.isSealed = true
  loaders : ∃ next attempts,
    Library.Accounts files linker s.config.libraryDirectories builtin s.report next attempts ∧
      ∀ id loader, s.repository.find? id = some loader ↔
        id = Loader.native.id ∧ loader = Loader.native ∨
          ∃ a ∈ attempts, ∃ loaders, a.ending = .ok loaders ∧ loader ∈ loaders ∧ loader.id = id

theorem Stages.covers {file : Option String} (s : Stages files linker artifact file) :
    s.Covers := by
  obtain ⟨hsorted, hdirectories⟩ := pluginRoots_spec s.listed
  obtain ⟨next, hscan, hclose⟩ := outcome_boot_eq_ok_iff.1 s.booted
  have haccounts := Library.accounts_attemptEach files linker s.config.libraryDirectories builtin
  obtain ⟨hnext, hreport⟩ :=
    Prod.mk.inj (Except.ok.inj (hscan.symm.trans (Library.outcome_scan files linker _ _)))
  rw [← hnext, ← hreport] at haccounts
  exact
    { configured := configure_eq_ok_iff.1 s.configured
      ascending := s.found.extensions.pairwise_toList
      extensions := fun e => ExtensionSet.mem_toList
      sorted := hsorted
      directories := hdirectories
      plugins := mapM_eq_ok_iff.1 s.assembled
      isSealed := by rw [hclose]; rfl
      loaders := ⟨next, _, haccounts, fun id loader => by
        have hfind : s.repository.find? id = next.find? id := by rw [hclose]; rfl
        rw [hfind, haccounts.contributed, find?_builtin]⟩ }

/-- **The program prints what it discovered, or nothing.**  Unless it exits with 0 the standard
output is empty.  It exits with 0 exactly if all stages succeed, and then it prints the header and
a line for each extension that discovery finds in the plugins of the artifact.  A configuration
that cannot be read, or names no level of the log, is the failure of a stage. -/
theorem run_prints_discovered (program : String) (files : FileSystem) (linker : Linker)
    (args : List String) :
    ((run program files linker args).exitCode ≠ 0 →
      (run program files linker args).output = "") ∧
    ((run program files linker args).exitCode = 0 ↔ ∃ artifact rest, args = artifact :: rest ∧
      Nonempty (Stages files linker ⟨artifact⟩ rest.head?)) ∧
    (∀ artifact rest, args = artifact :: rest →
      ∀ s : Stages files linker ⟨artifact⟩ rest.head?, s.Covers ∧
        (run program files linker args).output =
          String.join (s!"Extensions of {artifact}:\n" ::
            s.found.extensions.toList.map fun e =>
              s!"- {e.name} {e.version} ({e.operations.length} operations)\n")) ∧
    ∀ artifact rest, args = artifact :: rest →
      (∀ config, Chosen files rest.head? config → LogLevel.ofName? config.logLevel = none) →
      (run program files linker args).exitCode = 1 := by
  refine ⟨fun h => ?_, ?_, ?_, ?_⟩
  · cases args with
    | nil => rfl
    | cons artifact rest =>
      rcases isEmpty_or_nonempty (Stages files linker ⟨artifact⟩ rest.head?) with hs | ⟨⟨s⟩⟩
      · exact (run_of_isEmpty_stages hs program).2
      · exact absurd (s.run_eq program).1 h
  · cases args with
    | nil => simp [run]
    | cons artifact rest =>
      rw [exitCode_eq_zero_iff]
      constructor
      · intro hs
        exact ⟨artifact, rest, rfl, hs⟩
      · rintro ⟨_, _, heq, hs⟩
        obtain ⟨rfl, rfl⟩ := List.cons.inj heq
        exact hs
  · rintro artifact rest rfl s
    exact ⟨s.covers, (s.run_eq program).2⟩
  · rintro artifact rest rfl hnone
    obtain ⟨failure, hconfigure⟩ := configure_fails_iff.2 hnone
    rw [run_cons, hconfigure]

/-! ### A run that prints an extension -/

/-- A configuration that points to a directory of libraries. -/
def harborConfig : Json := .object [("loaderLibraryDirs", .array [.string "lib"])]

/-- What it says. -/
def harborChoices : Config := { libraryDirectories := ["lib"] }

/-- The descriptor of a plugin that asks for the loader of a library. -/
def harborDescriptor : Json :=
  .object [("extensionModelLoaderDescriptor", .object [("id", .string "charts")]),
    ("name", .string "tides")]

/-- An artifact with one plugin, a library and the configuration. -/
def harbor : FileSystem where
  entries := [(["c.json"], .file harborConfig.print.toUTF8), (["lib"], .directory),
    (["lib", "a.so"], .file "a".toUTF8), (["ext"], .directory), (["ext", "tides"], .directory),
    (["ext", "tides", "META-INF"], .directory),
    (["ext", "tides", "META-INF", "plugin.json"], .file harborDescriptor.print.toUTF8)]
  current := []
  tree := ⟨by simp, by decide, by decide⟩
  current_directory := Or.inl rfl

/-- The extension of the plugin. -/
def tides : Extension := { name := "Tides", version := "2.1", operations := [{ name := "next" }] }

/-- A linker to which every file is a library with a loader of that extension. -/
def charting : Linker where
  ofContent _ _ := .library { offered := [some (Loader.fixed "charts" tides)] }
  named := Linker.named_nil

theorem read_harborConfig : Json.read harborConfig.print.toUTF8 = .ok harborConfig := by
  refine Json.read_print (Json.plain_object ["loaderLibraryDirs"] rfl (by decide) ?_)
  simp [Json.Plain.array, Json.Plain.string]

theorem read_harborDescriptor : Json.read harborDescriptor.print.toUTF8 = .ok harborDescriptor := by
  refine Json.read_print
    (Json.plain_object ["extensionModelLoaderDescriptor", "name"] rfl (by decide) ?_)
  have hdescriber : Json.Plain (.object [("id", .string "charts")]) :=
    Json.plain_object ["id"] rfl (by decide) (by simp [Json.Plain.string])
  simp [Json.Plain.string, hdescriber]

/-- The plugin of the artifact. -/
def harborPlugin : Plugin where
  descriptor := { name := "tides", describer := some { id := "charts" } }
  files := { artifactId := "tides", root := ⟨"ext/tides"⟩, files := harbor }

theorem pluginRoots_harbor : pluginRoots harbor ⟨"ext"⟩ = .ok [⟨"ext/tides"⟩] := by
  refine pluginRoots_eq_ok_iff.2 ⟨[⟨⟨"ext/tides"⟩, .directory⟩], rfl, ?_, ?_⟩
  · intro e he
    obtain rfl := List.mem_singleton.1 he
    exact ⟨true, rfl⟩
  · exact (List.mergeSort_singleton _).symm

theorem ofDirectory_harbor :
    Plugin.ofDirectory harbor ⟨"ext/tides"⟩ harborChoices = .ok harborPlugin := by
  have hfound : (Plugin.probe harbor ⟨"ext/tides"⟩).findResource ⟨"META-INF/plugin.json"⟩ =
      some ⟨"ext/tides/META-INF/plugin.json"⟩ := by decide +kernel
  have hread : harbor.read? ⟨"ext/tides/META-INF/plugin.json"⟩ =
      some harborDescriptor.print.toUTF8 := rfl
  have hdescribe : Plugin.describe harbor ⟨"ext/tides"⟩ harborChoices = _ :=
    Plugin.describe_of_found hfound hread
  rw [Descriptor.parse_eq_ok_iff.2 ⟨harborDescriptor, read_harborDescriptor, rfl, by decide⟩]
    at hdescribe
  exact Plugin.ofDirectory_eq_ok_iff.2 ⟨_, by decide, hdescribe, rfl⟩

theorem exists_boot_harbor : ∃ r report,
    (boot harbor charting harborChoices).outcome = .ok (r, report) ∧
      r.find? "charts" = some ((Loader.fixed "charts" tides).keeping ⟨"lib/a.so"⟩) := by
  have htargets : Library.targets harbor ["lib"] = [⟨"lib/a.so"⟩] := by decide +kernel
  have hscan := Library.outcome_scan harbor charting ["lib"] builtin
  rw [htargets] at hscan
  exact ⟨_, _, outcome_boot_eq_ok_iff.2 ⟨_, hscan, rfl⟩, rfl⟩

theorem discover_harbor {r : Repository}
    (h : r.find? "charts" = some ((Loader.fixed "charts" tides).keeping ⟨"lib/a.so"⟩)) :
    ((discovery harborChoices r).run [harborPlugin]).outcome =
      .ok { extensions := ExtensionSet.ofList [tides] } := by
  have hserves : (discovery harborChoices r).Serves harborPlugin _
      ({ id := "charts" } : Describer).attributes := .describer rfl h
  have hload : (((Loader.fixed "charts" tides).keeping ⟨"lib/a.so"⟩).load
      { files := harborPlugin.files, context := .ofSet ∅, attributes := ∅ }).outcome = .ok tides :=
    Loader.outcome_load_eq_ok_iff.2 ⟨rfl, by decide⟩
  have hvisit := Discovery.visit_of_attempt_ok (f := {})
    (Discovery.attempt?_of_serves hserves ∅) hload
  rw [Discovery.outcome_run]
  exact Traced.outcome_bind_of_ok _ hvisit

/-- The plugin is deployed with the loader of the library that the configuration points to. -/
theorem run_prints_tides :
    (run "deploy" harbor charting ["ext", "c.json"]).exitCode = 0 ∧
      (run "deploy" harbor charting ["ext", "c.json"]).output =
        "Extensions of ext:\n- Tides 2.1 (1 operations)\n" := by
  obtain ⟨r, report, hboot, hfind⟩ := exists_boot_harbor
  let stages : Stages harbor charting ⟨"ext"⟩ (some "c.json") :=
    { config := harborChoices, level := .info, repository := r, report, roots := _
      plugins := [harborPlugin], found := _
      configured := configure_eq_ok_iff.2 ⟨.file rfl read_harborConfig rfl, rfl⟩
      booted := hboot
      listed := pluginRoots_harbor
      assembled := mapM_eq_ok_iff.2 (.cons ofDirectory_harbor .nil)
      discovered := discover_harbor hfind }
  obtain ⟨-, hexit, hprints, -⟩ :=
    run_prints_discovered "deploy" harbor charting ["ext", "c.json"]
  refine ⟨hexit.2 ⟨"ext", ["c.json"], rfl, ⟨stages⟩⟩, ?_⟩
  rw [(hprints "ext" ["c.json"] rfl stages).2]
  rfl

end Program

end PluginHost
