import PluginHost.Proofs.Discovery.Alike
import PluginHost.Proofs.Library.Alike
import PluginHost.Proofs.Library.Linker
import PluginHost.Proofs.Plugin
import PluginHost.Proofs.Program

/-!
# Runs over directories in another order

Neither a scan nor a run of the program depends on the order in which directories list their
entries: libraries and plugins are put in order by their paths before anything is done with them
(`Program.run_eq_of_alike`).  For the run this takes loaders that go by paths: what the loader of a
library makes of a plugin may depend on every file that it finds under a path, but not on the
order in which a directory happens to list its entries (`Linker.OffersByPaths`).  For the scan it
takes nothing.
-/

namespace PluginHost

/-- Whether the loaders that libraries offer go by paths: they look at files through paths alone,
and do not list directories. -/
def Linker.OffersByPaths (linker : Linker) : Prop :=
  ∀ mapped content image, linker.ofContent mapped content = .library image →
    ∀ loader, some loader ∈ image.offered → loader.GoesByPaths

variable {files files' : FileSystem} {linker : Linker} {root artifact : Path} {config : Config}

/-- What the libraries of a scan add are loaders that look at files through paths. -/
theorem Library.Accounts.goesByPaths {patterns : List String} {r next : Repository}
    {report : ScanReport} {attempts : List Attempt} (hl : linker.OffersByPaths)
    (h : Accounts files linker patterns r report next attempts) {a : Attempt} (ha : a ∈ attempts)
    {loaders : List Loader} (hending : a.ending = .ok loaders) {loader : Loader}
    (hloader : loader ∈ loaders) : loader.GoesByPaths := by
  obtain ⟨before, after, hattempts⟩ := List.append_of_mem ha
  rw [h.ending before a after hattempts] at hending
  obtain ⟨image, himage, hadds⟩ := contributionAt_eq_ok_iff.1 hending
  have htarget : a.path ∈ targets files patterns := h.paths ▸ List.mem_map_of_mem ha
  obtain ⟨content, hcontent⟩ :=
    exists_content_of_library (slash_mem_of_mem_targets htarget).1 himage
  obtain ⟨offered, hoffered, rfl⟩ := (mem_of_contribution hadds).1 hloader
  exact (hl _ content image hcontent offered hoffered).keeping _

/-! ### Plugins -/

namespace Plugin

theorem describe_eq_of_alike (h : files.Alike files') (root : Path) (config : Config) :
    describe files root config = describe files' root config := by
  have hcontext : LoadingContext.Alike ⟨root.lastName, root, files⟩
      ⟨root.lastName, root, files'⟩ := ⟨rfl, rfl, h⟩
  unfold describe Descriptor.read
  simp only [hcontext.findResource_eq, h.read?_eq]

theorem exists_alike_ofDirectory (h : files.Alike files') {p : Plugin}
    (hp : ofDirectory files root config = .ok p) :
    ∃ q, ofDirectory files' root config = .ok q ∧ p.Alike q := by
  obtain ⟨d, named, hdescribe, rfl⟩ := ofDirectory_eq_ok_iff.1 hp
  rw [describe_eq_of_alike h] at hdescribe
  exact ⟨_, ofDirectory_eq_ok_iff.2 ⟨d, named, hdescribe, rfl⟩, rfl, rfl, rfl, h⟩

theorem exists_alike_mapM (h : files.Alike files') {roots : List Path} {ps : List Plugin}
    (hps : roots.mapM (fun root => ofDirectory files root config) = .ok ps) :
    ∃ qs, roots.mapM (fun root => ofDirectory files' root config) = .ok qs ∧
      List.Forall₂ Plugin.Alike ps qs := by
  simp only [mapM_eq_ok_iff] at hps ⊢
  induction hps with
  | nil => exact ⟨[], .nil, .nil⟩
  | cons hp _ ih =>
    obtain ⟨q, hq, hpq⟩ := exists_alike_ofDirectory h hp
    obtain ⟨qs, hqs, halike⟩ := ih
    exact ⟨q :: qs, .cons hq hqs, .cons hpq halike⟩

end Plugin

/-! ### Runs -/

namespace Program

theorem configure_eq_of_alike (h : files.Alike files') (file : Option String) :
    configure files file = configure files' file := by
  unfold configure Config.read
  simp only [h.status_eq]

theorem boot_eq_of_alike (h : files.Alike files') (linker : Linker) (config : Config) :
    boot files linker config = boot files' linker config := by
  unfold boot
  simp only [h.scan_eq]

theorem pluginRoots_of_alike (h : files.Alike files') {roots : List Path}
    (hroots : pluginRoots files artifact = .ok roots) :
    pluginRoots files' artifact = .ok roots := by
  obtain ⟨entries, hlist, htests, rfl⟩ := pluginRoots_eq_ok_iff.1 hroots
  obtain ⟨entries', hlist', hperm⟩ := h.list_perm hlist
  have hroot : isPluginRoot files = isPluginRoot files' := by
    funext e
    unfold isPluginRoot
    rw [h.statusOf_eq]
  rw [hroot] at htests ⊢
  exact pluginRoots_eq_ok_iff.2 ⟨entries', hlist', fun e he => htests e (hperm.mem_iff.2 he),
    FileSystem.sort_filter_eq_of_perm (FileSystem.nodup_parts_list hlist) hperm _⟩

theorem Stages.goesByPaths {file : Option String} (hl : linker.OffersByPaths)
    (s : Stages files linker artifact file) : (discovery s.config s.repository).GoesByPaths where
  loaders := by
    intro id loader hfound
    obtain ⟨next, attempts, haccounts, hloaders⟩ := s.covers.loaders
    rcases (hloaders id loader).1 hfound with ⟨-, rfl⟩ | ⟨a, ha, loaders, hending, hmem, -⟩
    · exact Loader.native_goesByPaths
    · exact haccounts.goesByPaths hl ha hending hmem
  builtin := Loader.native_goesByPaths
  readManifest := rfl

/-- What all stages of a run find is found over the other directories, too. -/
theorem Stages.exists_of_alike {file : Option String} (hl : linker.OffersByPaths)
    (h : files.Alike files') (s : Stages files linker artifact file) :
    ∃ s' : Stages files' linker artifact file, s'.found = s.found := by
  obtain ⟨qs, hqs, halike⟩ := Plugin.exists_alike_mapM h s.assembled
  have hdiscovered := (Discovery.outcome_run_eq_of_alike (s.goesByPaths hl) halike).symm.trans
    s.discovered
  exact ⟨{ s with
    plugins := qs
    configured := (configure_eq_of_alike h file).symm.trans s.configured
    booted := (congrArg Traced.outcome (boot_eq_of_alike h linker s.config)).symm.trans s.booted
    listed := pluginRoots_of_alike h s.listed
    assembled := hqs
    discovered := hdiscovered }, rfl⟩

theorem exitCode_eq_of_alike (hl : linker.OffersByPaths) (h : files.Alike files')
    (program : String) (args : List String) :
    (run program files linker args).exitCode = (run program files' linker args).exitCode ∧
      (run program files linker args).output = (run program files' linker args).output := by
  cases args with
  | nil => exact ⟨rfl, rfl⟩
  | cons artifact rest =>
    rcases isEmpty_or_nonempty (Stages files linker ⟨artifact⟩ rest.head?) with hs | ⟨⟨s⟩⟩
    · -- the stages do not all succeed in the other order either
      have hs' : IsEmpty (Stages files' linker ⟨artifact⟩ rest.head?) :=
        ⟨fun s' => (s'.exists_of_alike hl h.symm).elim fun s _ => hs.elim s⟩
      obtain ⟨hexit, houtput⟩ := run_of_isEmpty_stages hs program
      obtain ⟨hexit', houtput'⟩ := run_of_isEmpty_stages hs' program
      exact ⟨hexit.trans hexit'.symm, houtput.trans houtput'.symm⟩
    · obtain ⟨s', hfound⟩ := s.exists_of_alike hl h
      obtain ⟨hexit, houtput⟩ := s.run_eq program
      obtain ⟨hexit', houtput'⟩ := s'.run_eq program
      rw [hfound] at houtput'
      exact ⟨hexit.trans hexit'.symm, houtput.trans houtput'.symm⟩

theorem plugins_ascending {plugins : List Plugin}
    (h : Program.plugins files artifact config = .ok plugins) :
    pluginRoots files artifact = .ok (plugins.map (·.files.root)) ∧
      (plugins.map (·.files.root)).Pairwise fun p q => p.before q = true := by
  obtain ⟨roots, hroots, hassembled⟩ := plugins_eq_ok_iff.1 h
  have heq : plugins.map (·.files.root) = roots := by
    have hforall := mapM_eq_ok_iff.1 hassembled
    clear hassembled h hroots
    induction hforall with
    | nil => rfl
    | cons hp _ ih =>
      obtain ⟨d, named, -, rfl⟩ := Plugin.ofDirectory_eq_ok_iff.1 hp
      rw [List.map_cons, ih]
  rw [heq]
  exact ⟨hroots, (pluginRoots_spec hroots).1⟩

/-- **The order in which directories list their entries makes no difference.**  A scan does,
reports and registers the same, whatever the libraries are.  A run of the program exits with the
same code and prints the same, if the loaders of the libraries go by paths and do not list
directories, as the built-in loader does.  The plugins are deployed in ascending order of their
directories, and these are the same. -/
theorem run_eq_of_alike (h : files.Alike files') :
    (∀ linker patterns r, Library.scan files linker patterns r =
      Library.scan files' linker patterns r) ∧
    (∀ linker : Linker, linker.OffersByPaths → ∀ program args,
      (run program files linker args).exitCode = (run program files' linker args).exitCode ∧
        (run program files linker args).output = (run program files' linker args).output) ∧
    ∀ artifact config plugins, Program.plugins files artifact config = .ok plugins →
      (plugins.map (·.files.root)).Pairwise (fun p q => p.before q = true) ∧
        ∃ plugins', Program.plugins files' artifact config = .ok plugins' ∧
          plugins'.map (·.files.root) = plugins.map (·.files.root) := by
  refine ⟨fun linker patterns r => h.scan_eq patterns r,
    fun linker hl program args => exitCode_eq_of_alike hl h program args, ?_⟩
  intro artifact config plugins hplugins
  obtain ⟨hroots, hascending⟩ := plugins_ascending hplugins
  obtain ⟨roots, hroots', hassembled⟩ := plugins_eq_ok_iff.1 hplugins
  obtain ⟨plugins', hassembled', -⟩ := Plugin.exists_alike_mapM h hassembled
  have hplugins' : Program.plugins files' artifact config = .ok plugins' :=
    plugins_eq_ok_iff.2 ⟨roots, pluginRoots_of_alike h hroots', hassembled'⟩
  refine ⟨hascending, plugins', hplugins', ?_⟩
  exact Except.ok.inj ((plugins_ascending hplugins').1.symm.trans (pluginRoots_of_alike h hroots))

/-! ### Two libraries that clash -/

/-- A directory with two libraries. -/
def paired : FileSystem where
  entries :=
    [(["d"], .directory), (["d", "a.so"], .file "a".toUTF8), (["d", "b.so"], .file "bb".toUTF8)]
  current := []
  tree := ⟨by decide, by decide, by decide⟩
  current_directory := Or.inl rfl

/-- The directory with its libraries listed the other way round. -/
def swapped : FileSystem where
  entries :=
    [(["d"], .directory), (["d", "b.so"], .file "bb".toUTF8), (["d", "a.so"], .file "a".toUTF8)]
  current := []
  tree := ⟨by decide, by decide, by decide⟩
  current_directory := Or.inl rfl

/-- A linker to which every file is a library with a loader of its own under the same id. -/
def clashing : Linker where
  ofContent _ content := .library
    { offered := [some (Loader.fixed "x" { name := "X", version := toString content.size })] }
  named := Linker.named_nil

/-- The same library wins whichever is listed first. -/
theorem run_eq_of_swapped :
    (paired.Alike swapped ∧ clashing.OffersByPaths) ∧
      paired.entriesIn ["d"] ≠ swapped.entriesIn ["d"] ∧
      Library.scan paired clashing ["d"] ∅ = Library.scan swapped clashing ["d"] ∅ ∧
      (run "deploy" paired clashing ["."]).exitCode =
        (run "deploy" swapped clashing ["."]).exitCode ∧
      (run "deploy" paired clashing ["."]).output =
        (run "deploy" swapped clashing ["."]).output := by
  have halike : paired.Alike swapped := ⟨(List.Perm.swap _ _ []).cons _, rfl⟩
  have hoffers : clashing.OffersByPaths := by
    intro mapped content image himage loader hloader
    obtain rfl := SharedObject.library.inj himage
    obtain rfl : loader = _ := Option.some.inj (List.mem_singleton.1 hloader)
    exact fun _ _ _ => rfl
  obtain ⟨hscan, hrun, -⟩ := run_eq_of_alike halike
  exact ⟨⟨halike, hoffers⟩, by decide, hscan clashing ["d"] ∅, hrun clashing hoffers "deploy" ["."]⟩

end Program

end PluginHost
