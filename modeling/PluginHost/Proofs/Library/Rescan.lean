import PluginHost.Loader.Stock
import PluginHost.Proofs.Library.Linker
import PluginHost.Proofs.Library.Scan
import PluginHost.Proofs.Path.Slashes

/-!
# Scanning again

A library that was attempted once is spent: attempted again in what became of the repository, it
adds nothing, because its loaders are either there by now or kept out by what was there before
(`Library.loaders_attempt_again`).  So scanning the same patterns again changes nothing, and
scanning two lists of patterns at once comes to the same as scanning one after the other
(`Library.scan_append`).  A library that could not be opened may open later, however, when one is
mapped that it needs, or under a shorter spelling of its path.  Hence the linker must not open
files because of the libraries that are mapped (`Linker.Unaided`), nor a path that it could not
follow as it was spelled before (`Library.OpensAlike`).
-/

namespace PluginHost

/-! ### Repositories that went on -/

namespace Repository

/-- Whether a repository has all loaders of another one, and is open or sealed as it is. -/
structure Continues (r next : Repository) : Prop where
  kept : ∀ id loader, r.find? id = some loader → next.find? id = some loader
  isSealed : next.isSealed = r.isSealed

variable {r next last : Repository}

theorem Continues.refl (r : Repository) : Continues r r := ⟨fun _ _ h => h, rfl⟩

theorem Continues.trans (h : Continues r next) (h' : Continues next last) : Continues r last :=
  ⟨fun id loader hid => h'.kept id loader (h.kept id loader hid), h'.isSealed.trans h.isSealed⟩

theorem Continues.has (h : Continues r next) {id : String} (hid : r.has id = true) :
    next.has id = true := by
  obtain ⟨loader, hloader⟩ := Option.isSome_iff_exists.1 hid
  exact Option.isSome_iff_exists.2 ⟨loader, h.kept id loader hloader⟩

theorem mem_mapped_iff {path : Path} :
    path ∈ r.mapped ↔ ∃ id loader, r.find? id = some loader ∧ path ∈ loader.keeps := by
  unfold mapped
  rw [List.mem_flatMap]
  constructor
  · rintro ⟨loader, hloader, hkeeps⟩
    obtain ⟨⟨id, _⟩, hentry, rfl⟩ := List.mem_map.1 hloader
    exact ⟨id, _, KeyMap.find?_eq_some_iff.2 hentry, hkeeps⟩
  · rintro ⟨id, loader, hfound, hkeeps⟩
    exact ⟨loader, List.mem_map_of_mem (KeyMap.find?_eq_some_iff.1 hfound), hkeeps⟩

theorem Continues.mapped_subset (h : Continues r next) : r.mapped ⊆ next.mapped := by
  intro path hpath
  obtain ⟨id, loader, hfound, hkeeps⟩ := mem_mapped_iff.1 hpath
  exact mem_mapped_iff.2 ⟨id, loader, h.kept id loader hfound, hkeeps⟩

theorem continues_putEach {loaders : List Loader} (h : loaders = [] ∨ r.Admits loaders) :
    Continues r (r.putEach loaders) := by
  refine ⟨fun id loader hfound => ?_, isSealed_putEach r loaders⟩
  rcases h with rfl | hadmits
  · exact hfound
  · exact hadmits.find?_putEach_eq_some_iff.2 (.inl hfound)

end Repository

namespace Library

open Attempt

variable {files : FileSystem} {linker : Linker} {r next : Repository}
  {paths : List Path} {path p q : Path}

/-! ### One library attempted twice -/

/-- Attempts keep what was there before them, and are kept by those behind them. -/
theorem continues_of_append {before after : List Attempt}
    (h : attemptEach files linker r paths = before ++ after) :
    r.Continues (r.putEach (added before)) ∧
      (r.putEach (added before)).Continues
        (r.putEach (added (attemptEach files linker r paths))) := by
  have hadded := added_eq_nil_or_admits files linker r paths
  rw [h, added_append] at hadded ⊢
  rw [Repository.putEach_append]
  rcases hadded with hnone | hadmits
  · obtain ⟨hbefore, hafter⟩ := List.append_eq_nil_iff.1 hnone
    exact ⟨Repository.continues_putEach (.inl hbefore), Repository.continues_putEach (.inl hafter)⟩
  · obtain ⟨hbefore, hafter⟩ := Repository.admits_append_iff.1 hadmits
    exact ⟨Repository.continues_putEach (.inr hbefore), Repository.continues_putEach (.inr hafter)⟩

theorem continues_attempt (files : FileSystem) (linker : Linker) (r : Repository) (path : Path) :
    r.Continues (r.putEach (attempt files linker r path).loaders) := by
  have hadded : added (attemptEach files linker r [path]) = (attempt files linker r path).loaders :=
    List.append_nil _
  have hsplit : attemptEach files linker r [path] = attemptEach files linker r [path] ++ [] :=
    (List.append_nil _).symm
  rw [← hadded]
  exact (continues_of_append hsplit).1

/-- **A library that was attempted adds nothing later**, at whatever path it is attempted again:
of what it would add either something was there before, or all of it was added then. -/
theorem loaders_attempt_again
    (hobject : ∀ image, sharedObject files linker next.mapped q = .library image →
      sharedObject files linker r.mapped p = .library image)
    (h : (r.putEach (attempt files linker r p).loaders).Continues next) :
    (attempt files linker next q).loaders = [] := by
  cases hc : contributionAt files linker next q with
  | error fault => simp [attempt, loaders, hc]
  | ok ls =>
    obtain ⟨image, himage, hadds⟩ := contributionAt_eq_ok_iff.1 hc
    obtain ⟨hopen, staging, hrun, hfree, rfl⟩ := contribution_eq_ok_iff.1 hadds
    have hcontinues := (continues_attempt files linker r p).trans h
    -- what can be added now could be added before, so it was
    have hbefore : contributionAt files linker r p = .ok (loadersKeeping p staging) := by
      refine contributionAt_eq_ok_iff.2 ⟨image, hobject image himage, ?_⟩
      refine contribution_eq_ok_iff.2
        ⟨hcontinues.isSealed.symm.trans hopen, staging, hrun, fun id hid => ?_, rfl⟩
      cases hhas : r.has id with
      | false => rfl
      | true => exact absurd (hcontinues.has hhas) (by simp [hfree id hid])
    have hadded : (attempt files linker r p).loaders = loadersKeeping p staging := by
      simp [attempt, loaders, hbefore]
    have hnone : staging.ids = [] := by
      refine List.eq_nil_iff_forall_not_mem.2 fun id hid => ?_
      have hhas : next.has id = true := by
        refine h.has (Repository.has_putEach_iff.2 (Or.inr ?_))
        rw [hadded]
        exact (map_id_loadersKeeping_of_run p hrun).symm ▸ hid
      exact absurd hhas (by simp [hfree id hid])
    have hloaders : loadersKeeping q staging = [] :=
      List.map_eq_nil_iff.1 ((map_id_loadersKeeping_of_run q hrun).trans hnone)
    simp [attempt, loaders, hc, hloaders]

/-- Attempts that add nothing can be left out. -/
theorem added_attemptEach_filter (keep : Path → Bool)
    (h : ∀ path ∈ paths, keep path = false → ∀ next, r.Continues next →
      (attempt files linker next path).loaders = []) :
    added (attemptEach files linker r (paths.filter keep)) =
      added (attemptEach files linker r paths) := by
  induction paths generalizing r with
  | nil => rfl
  | cons path rest ih =>
    have hrest : ∀ other ∈ rest, keep other = false →
        ∀ next, (r.putEach (attempt files linker r path).loaders).Continues next →
          (attempt files linker next other).loaders = [] := fun other hother hkeep next hnext =>
      h other (List.mem_cons_of_mem _ hother) hkeep next
        ((continues_attempt files linker r path).trans hnext)
    rw [attemptEach_cons, added_cons]
    by_cases hkeep : keep path = true
    · rw [List.filter_cons_of_pos hkeep, attemptEach_cons, added_cons]
      exact congrArg _ (ih hrest)
    · rw [List.filter_cons_of_neg hkeep]
      have hnone := h path List.mem_cons_self (by simpa using hkeep) r (.refl r)
      rw [hnone] at hrest ⊢
      exact ih hrest

theorem loaders_attempt_behind (hp : p ∈ paths)
    (hobject : ∀ mapped, mapped ⊆ next.mapped → ∀ image,
      sharedObject files linker next.mapped q = .library image →
        sharedObject files linker mapped p = .library image)
    (h : (r.putEach (added (attemptEach files linker r paths))).Continues next) :
    (attempt files linker next q).loaders = [] := by
  rw [← map_path_attemptEach files linker r paths] at hp
  obtain ⟨a, ha, rfl⟩ := List.mem_map.1 hp
  obtain ⟨before, after, hattempts, hattempt⟩ := exists_attempt_of_mem ha
  have hbehind := (continues_of_append hattempts).2.trans h
  have hspent : ((r.putEach (added before)).putEach a.loaders).Continues next := by
    have hsplit : attemptEach files linker r paths = (before ++ [a]) ++ after := by simp [hattempts]
    have hadded : added [a] = a.loaders := List.append_nil _
    have hcontinues := (continues_of_append hsplit).2
    rw [added_append, Repository.putEach_append, hadded] at hcontinues
    exact hcontinues.trans h
  rw [hattempt] at hspent
  exact loaders_attempt_again (hobject _ hbehind.mapped_subset) hspent

/-! ### The libraries of two scans -/

/-- Whether no library that two lists of patterns give is at a path that the linker can follow
only as the second list gives it. -/
def OpensAlike (files : FileSystem) (linker : Linker) (first second : List String) : Prop :=
  ∀ p ∈ targets files first, ∀ q ∈ targets files second, p.parts = q.parts →
    (linker.expand q).text.utf8ByteSize ≤ FileSystem.pathLimit →
      (linker.expand p).text.utf8ByteSize ≤ FileSystem.pathLimit

variable {first second : List String}

/-- A list of patterns gives each library at one path. -/
theorem opensAlike_self (files : FileSystem) (linker : Linker) (patterns : List String) :
    OpensAlike files linker patterns patterns := by
  intro p hp q hq hparts hlength
  have hnodup : ((targets files patterns).map Path.parts).Nodup :=
    List.pairwise_map.2 (pairwise_targets files patterns)
  rwa [List.inj_on_of_nodup_map hnodup hp hq hparts]

/-- A library of one scan adds nothing in another one behind it. -/
theorem loaders_of_parts_eq (hl : linker.Unaided) (h : OpensAlike files linker first second)
    (hp : p ∈ targets files first) (hq : q ∈ targets files second) (hparts : p.parts = q.parts)
    (hnext : (r.putEach (added (attemptEach files linker r (targets files first)))).Continues
      next) :
    (attempt files linker next q).loaders = [] := by
  obtain ⟨hslash, htrailing⟩ := slash_mem_of_mem_targets hp
  refine loaders_attempt_behind hp (fun mapped hmapped image himage => ?_) hnext
  exact sharedObject_library_of_parts_eq hl hmapped hparts hslash (slash_mem_of_mem_targets hq).1
    htrailing (h p hp q hq hparts) himage

/-- **What two lists of patterns add** together is what they add one after the other. -/
theorem added_targets_append (hl : linker.Unaided) (h : OpensAlike files linker first second)
    (r : Repository) :
    added (attemptEach files linker r (targets files (first ++ second))) =
      added (attemptEach files linker r (targets files first)) ++
        added (attemptEach files linker
          (r.putEach (added (attemptEach files linker r (targets files first))))
          (targets files second)) := by
  rw [targets_append, attemptEach_append, added_append]
  refine congrArg _ (added_attemptEach_filter _ fun q hq hseen next hnext => ?_)
  obtain ⟨p, hp, hsame⟩ : ∃ p ∈ targets files first, q.same p = true := by simpa using hseen
  exact loaders_of_parts_eq hl h hp hq (Path.same_iff.1 hsame).symm hnext

/-- What one list of patterns adds the second time is nothing. -/
theorem added_again (hl : linker.Unaided) (files : FileSystem) (patterns : List String)
    (r : Repository) :
    added (attemptEach files linker
      (r.putEach (added (attemptEach files linker r (targets files patterns))))
      (targets files patterns)) = [] := by
  rw [← added_attemptEach_filter (fun _ => false), List.filter_false]
  · rfl
  · intro path hpath _ next hnext
    exact loaders_of_parts_eq hl (opensAlike_self files linker patterns) hpath hpath rfl hnext

/-! ### One library at two paths -/

/-- A directory with one library in it. -/
def lone : FileSystem where
  entries := [(["d"], .directory), (["d", "a.so"], .file .empty)]
  current := []
  tree := ⟨by decide, by decide, by decide⟩
  current_directory := Or.inl rfl

/-- A linker to which every file is a library with one loader. -/
def offering : Linker where
  ofContent _ _ := .library { offered := [some (Loader.fixed "x" { name := "X" })] }
  named := Linker.named_nil

/-- The directory with so many slashes behind its name. -/
def stretched : Nat → String
  | 0 => "d"
  | slashes + 1 => stretched slashes ++ "/"

theorem stretched_eq (slashes : Nat) :
    (⟨stretched slashes⟩ : Path) = (⟨"d"⟩ : Path).withSlashes slashes := by
  induction slashes with
  | zero => rfl
  | succ slashes ih => rw [stretched, Path.withSlashes, ← ih]

theorem toList_stretched (slashes : Nat) :
    (stretched slashes).toList = 'd' :: List.replicate slashes '/' := by
  have htext := Path.toList_withSlashes ⟨"d"⟩ slashes
  rwa [← stretched_eq] at htext

theorem size_stretched (slashes : Nat) : (stretched slashes).utf8ByteSize = slashes + 1 := by
  have hsize := Path.size_withSlashes ⟨"d"⟩ slashes
  rw [← stretched_eq, Nat.add_comm] at hsize
  exact hsize

theorem namesOf_stretched (slashes : Nat) :
    Path.namesOf (stretched slashes).toList = ["d"] := by
  have hnames := Path.names_withSlashes ⟨"d"⟩ slashes
  rwa [← stretched_eq] at hnames

theorem rooted_stretched (slashes : Nat) :
    (⟨stretched slashes⟩ : Path).parts.rooted = false := by
  rw [stretched_eq, Path.rooted_withSlashes (by decide)]
  rfl

theorem target_stretched (slashes : Nat) :
    target (stretched slashes) = (stretched slashes, false) := by
  cases slashes with
  | zero => rfl
  | succ slashes =>
    have hreverse : ('d' :: List.replicate (slashes + 1) '/').reverse =
        '/' :: (List.replicate slashes '/' ++ ['d']) := by
      rw [List.reverse_cons, List.reverse_replicate, List.replicate_succ, List.cons_append]
    unfold target
    rw [toList_stretched, hreverse]
    rfl

/-- The path at which the library is found. -/
def libraryAt (slashes : Nat) : Path := Path.descend ⟨stretched slashes⟩ ["a.so"]

theorem text_stretched_ne_empty (slashes : Nat) : stretched slashes ≠ "" := by
  have htext := Path.text_withSlashes_ne_empty (p := ⟨"d"⟩) (by decide) slashes
  rwa [← stretched_eq] at htext

theorem isName_library : ∀ n ∈ ["a.so"], Path.IsName n := by decide

theorem slash_mem_libraryAt (slashes : Nat) : '/' ∈ (libraryAt slashes).text.toList := by
  unfold libraryAt
  exact Path.slash_mem_descend (text_stretched_ne_empty slashes) (List.cons_ne_nil _ _)
    isName_library

theorem parts_libraryAt (slashes : Nat) :
    (libraryAt slashes).parts = { rooted := false, names := ["d", "a.so"], trailing := false } := by
  have hnames : (⟨stretched slashes⟩ : Path).parts.names = ["d"] := namesOf_stretched slashes
  rw [libraryAt, Path.parts_descend (text_stretched_ne_empty slashes) (List.cons_ne_nil _ _)
    isName_library, rooted_stretched, hnames]
  rfl

theorem size_libraryAt (slashes : Nat) :
    (libraryAt slashes).text.utf8ByteSize = max slashes 1 + 5 := by
  have hone : ((⟨"d"⟩ : Path) / (⟨"a.so"⟩ : Path)).text.utf8ByteSize = 6 := rfl
  show ((⟨stretched slashes⟩ : Path) / (⟨"a.so"⟩ : Path)).text.utf8ByteSize = _
  rw [stretched_eq, Path.size_join_withSlashes (by decide) rfl, hone]
  omega

theorem directory_stretched {slashes : Nat} (h : slashes < FileSystem.pathLimit) :
    lone.directory ⟨stretched slashes⟩ = .ok ["d"] := by
  have hsize : ¬ FileSystem.pathLimit < (stretched slashes).utf8ByteSize := by
    rw [size_stretched]
    omega
  have hnames : (⟨stretched slashes⟩ : Path).parts.names = ["d"] := namesOf_stretched slashes
  have hstart : lone.start ⟨stretched slashes⟩ = [] := ite_self []
  have hfollow : (lone.follow {} FileSystem.linkLimit []
      (⟨stretched slashes⟩ : Path).parts.steps).map FileSystem.Reached.place = .ok ["d"] := by
    unfold Path.Parts.steps
    rw [hnames]
    cases (⟨stretched slashes⟩ : Path).parts.trailing <;> rfl
  unfold FileSystem.directory FileSystem.resolve
  rw [if_neg (text_stretched_ne_empty slashes), if_neg hsize, hstart, hfollow]
  rfl

/-- The library is found however many slashes there are, as long as the directory is. -/
theorem targets_stretched {slashes : Nat} (h : slashes < FileSystem.pathLimit) :
    targets lone [stretched slashes] = [libraryAt slashes] := by
  have hlist : lone.list ⟨stretched slashes⟩ = .ok [⟨libraryAt slashes, .file .empty⟩] :=
    FileSystem.list_eq_ok_iff.2 ⟨["d"], directory_stretched h, rfl⟩
  have hlisted : listed? lone (stretched slashes) = some [⟨libraryAt slashes, .file .empty⟩] := by
    rw [listed?_eq_some_iff, target_stretched]
    exact ⟨text_stretched_ne_empty slashes, hlist⟩
  have hcandidate : isCandidate lone ⟨libraryAt slashes, .file .empty⟩ = true := by
    have hname : (libraryAt slashes).lastName = "a.so" := by
      unfold Path.lastName
      rw [parts_libraryAt]
      rfl
    show decide (Path.extensionOf (libraryAt slashes).lastName = fileExtension) = true
    rw [hname]
    decide
  have hfound : found lone (stretched slashes) = [libraryAt slashes] := by
    unfold found
    rw [hlisted]
    simp [hcandidate, Path.sort]
  rw [targets, List.flatMap_cons, hfound, List.flatMap_nil, List.append_nil, unseen_cons]
  simp [unseen]

theorem loaders_attempt_of_pathLimit_lt {slashes : Nat} (h : FileSystem.pathLimit < slashes + 5)
    (r : Repository) : (attempt lone offering r (libraryAt slashes)).loaders = [] := by
  have hsize : FileSystem.pathLimit < (offering.expand (libraryAt slashes)).text.utf8ByteSize := by
    rw [Linker.expand_of_values_eq_nil rfl, size_libraryAt]
    omega
  obtain ⟨reason, hreason⟩ :=
    sharedObject_of_pathLimit_lt lone r.mapped (slash_mem_libraryAt _) hsize
  simp [attempt, contributionAt, openAt, hreason, loaders]

/-! ### Two scans -/

/-- **Scanning two lists of patterns at once** comes to the same as scanning the first and then
the second: a library of the first scan adds nothing in the second one.  For this the linker has
to be able to follow the path of a library as the first list gives it, if it is as the second
does.  **Scanning again** adds nothing and changes nothing.  Neither holds of a linker that opens a
file only because of the libraries that are mapped by then. -/
theorem scan_append (hl : linker.Unaided) (files : FileSystem) (first second : List String)
    (r : Repository) :
    ∃ middle report, (scan files linker first r).outcome = .ok (middle, report) ∧
      (∃ again, (scan files linker first middle).outcome = .ok (middle, again) ∧
        again.ids = []) ∧
      (OpensAlike files linker first second → ∃ next report' whole,
        (scan files linker second middle).outcome = .ok (next, report') ∧
        (scan files linker (first ++ second) r).outcome = .ok (next, whole) ∧
        whole.ids = report.ids ++ report'.ids ∧
        ∀ a ∈ attemptEach files linker middle (targets files second),
          (∃ p ∈ targets files first, p.same a.path = true) → a.loaders = []) := by
  have hscan := outcome_scan files linker
  refine ⟨_, _, hscan first r, ?_, fun h => ?_⟩
  · have hagain :=
      hscan first (r.putEach (added (attemptEach files linker r (targets files first))))
    rw [added_again hl files first r] at hagain
    refine ⟨_, hagain, ?_⟩
    show (added _).map (·.id) = []
    rw [added_again hl files first r]
    rfl
  · have hadded := added_targets_append hl h r
    have hwhole := hscan (first ++ second) r
    rw [hadded, Repository.putEach_append] at hwhole
    refine ⟨_, _, _, hscan second _, hwhole, ?_, ?_⟩
    · show (added _).map (·.id) = _
      rw [hadded, List.map_append]
      rfl
    · rintro a ha ⟨p, hp, hsame⟩
      obtain ⟨before, after, hattempts, hattempt⟩ := exists_attempt_of_mem ha
      have hpath : a.path ∈ targets files second := by
        rw [← map_path_attemptEach files linker _ (targets files second)]
        exact List.mem_map_of_mem ha
      rw [hattempt]
      exact loaders_of_parts_eq hl h hp hpath (Path.same_iff.1 hsame)
        (continues_of_append hattempts).1

/-- A library that is found behind one slash and behind two is loaded once. -/
theorem scan_append_stretched :
    (offering.Unaided ∧ OpensAlike lone offering [stretched 2] ["d"]) ∧
      ∃ middle report next report' whole,
        (scan lone offering [stretched 2] ∅).outcome = .ok (middle, report) ∧
        (scan lone offering ["d"] middle).outcome = .ok (next, report') ∧
        (scan lone offering ([stretched 2] ++ ["d"]) ∅).outcome = .ok (next, whole) ∧
        whole.ids = report.ids ++ report'.ids := by
  have hunaided : offering.Unaided := fun _ _ _ _ _ h => h
  have hopens : OpensAlike lone offering [stretched 2] ["d"] := by
    intro p hp q _ _ _
    rw [targets_stretched (by decide)] at hp
    obtain rfl := List.mem_singleton.1 hp
    rw [Linker.expand_of_values_eq_nil rfl, size_libraryAt]
    decide
  obtain ⟨middle, report, hfirst, -, happend⟩ :=
    scan_append hunaided lone [stretched 2] ["d"] ∅
  obtain ⟨next, report', whole, hsecond, hwhole, hids, -⟩ := happend hopens
  exact ⟨⟨hunaided, hopens⟩, middle, report, next, report', whole, hfirst, hsecond, hwhole, hids⟩

/-- A directory with a library that needs the one in another directory. -/
def needing : FileSystem where
  entries := [(["d"], .directory), (["d", "a.so"], .file "needs libdep.so".toUTF8),
    (["e"], .directory), (["e", "b.so"], .file "is libdep.so".toUTF8)]
  current := []
  tree := ⟨by decide, by decide, by decide⟩
  current_directory := Or.inl rfl

/-- A linker that finds the needed library only where it is mapped. -/
def providing : Linker where
  ofContent mapped content :=
    if content = "is libdep.so".toUTF8 then
      .library { offered := [some (Loader.fixed "b" { name := "B" })] }
    else if ⟨"e/b.so"⟩ ∈ mapped then
      .library { offered := [some (Loader.fixed "a" { name := "A" })] }
    else .unloadable "libdep.so: cannot open shared object file"
  named := Linker.named_nil

/-- A library that is found behind so many slashes that the linker cannot follow the path is
loaded by a second scan, which finds it behind one, and not by a single scan.  So is a library that
needs another one behind it, once the loaders of that one keep it mapped. -/
theorem scan_append_differs :
    (∃ middle report next report' last whole,
      (scan lone offering [stretched 4091] ∅).outcome = .ok (middle, report) ∧
      (scan lone offering ["d"] middle).outcome = .ok (next, report') ∧
      (scan lone offering ([stretched 4091] ++ ["d"]) ∅).outcome = .ok (last, whole) ∧
      next.ids = ["x"] ∧ report'.ids = ["x"] ∧ last.ids = [] ∧ whole.ids = []) ∧
    ∃ middle report next report' last whole,
      (scan needing providing ["d", "e"] ∅).outcome = .ok (middle, report) ∧
      (scan needing providing ["d", "e"] middle).outcome = .ok (next, report') ∧
      (scan needing providing (["d", "e"] ++ ["d", "e"]) ∅).outcome = .ok (last, whole) ∧
      next.ids = ["a", "b"] ∧ report'.ids = ["a"] ∧ last.ids = ["b"] ∧ whole.ids = ["b"] := by
  constructor
  · have hshort : targets lone ["d"] = [libraryAt 0] := @targets_stretched 0 (by decide)
    have hlong : targets lone [stretched 4091] = [libraryAt 4091] := targets_stretched (by decide)
    have hboth : targets lone ([stretched 4091] ++ ["d"]) = [libraryAt 4091] := by
      have hsame : (libraryAt 0).same (libraryAt 4091) = true :=
        Path.same_iff.2 ((parts_libraryAt 0).trans (parts_libraryAt 4091).symm)
      rw [targets_append, hlong, hshort]
      simp [hsame]
    have hnone : added (attemptEach lone offering ∅ [libraryAt 4091]) = [] := by
      rw [attemptEach_cons, added_cons, loaders_attempt_of_pathLimit_lt (by decide)]
      rfl
    have hscan := outcome_scan lone offering
    refine ⟨_, _, _, _, _, _, hscan _ _, hscan _ _, hscan _ _, ?_⟩
    unfold report
    rw [hshort, hlong, hboth, hnone]
    exact ⟨rfl, rfl, rfl, rfl⟩
  · have honce : targets needing ["d", "e"] = [⟨"d/a.so"⟩, ⟨"e/b.so"⟩] := by decide +kernel
    have htwice : targets needing (["d", "e"] ++ ["d", "e"]) = [⟨"d/a.so"⟩, ⟨"e/b.so"⟩] := by
      decide +kernel
    have hscan := outcome_scan needing providing
    refine ⟨_, _, _, _, _, _, hscan _ _, hscan _ _, hscan _ _, ?_⟩
    unfold report
    rw [honce, htwice]
    exact ⟨rfl, rfl, rfl, rfl⟩

end Library

end PluginHost
